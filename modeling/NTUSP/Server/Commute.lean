import NTUSP.Server.AnyRun
import NTUSP.Server.Reaction

/-!
# Lines of different clients

The select loop serves ready clients in the order of their descriptors. Two lines that
concern different seats do the same in either order: a reaction depends on the slot of its
connection and on the cell it concerns, and it edits these only. The exception is a line
that ends the process.
-/

namespace NTUSP.Server

open NTUSP.Library CString

/-! ## Cells -/

namespace TrainFile

variable {f : TrainFile} {k k' : Nat} {c c' : Char} {cells cells' : List (Nat × Char)}

/-- The file has a byte for every seat. -/
def Room (f : TrainFile) : Prop := 2 * SEAT_NUM ≤ f.bytes.length + 1

/-- The cells are those of seats. -/
def Seats (cells : List (Nat × Char)) : Prop := ∀ cell ∈ cells, cell.1 < SEAT_NUM

/-- No cell is in both lists. -/
def Apart (cells cells' : List (Nat × Char)) : Prop :=
  ∀ cell ∈ cells, ∀ cell' ∈ cells', cell.1 ≠ cell'.1

theorem Room.put (room : f.Room) (bound : k < SEAT_NUM) (c : Char) : (f.put k c).Room := by
  unfold Room at room ⊢
  rw [put_bytes (by omega), List.length_set]
  exact room

theorem put_comm (room : f.Room) (bound : k < SEAT_NUM) (bound' : k' < SEAT_NUM) (other : k ≠ k') :
    (f.put k c).put k' c' = (f.put k' c').put k c := by
  have bytes : ((f.put k c).put k' c').bytes = ((f.put k' c').put k c).bytes := by
    have inside := room.put bound c
    have inside' := room.put bound' c'
    unfold Room at room inside inside'
    rw [put_bytes (by omega), put_bytes (by omega), put_bytes (by omega), put_bytes (by omega)]
    exact List.set_comm c c' (by omega)
  have shape : ∀ (g : TrainFile) (k : Nat) (c : Char),
      g.put k c = { bytes := (g.put k c).bytes, offset := 0, locked := false } := fun _ _ _ => rfl
  rw [shape (f.put k c), shape (f.put k' c'), bytes]

theorem put_stores (room : f.Room) (bound : k < SEAT_NUM) (bounds : Seats cells)
    (apart : ∀ cell ∈ cells, cell.1 ≠ k) :
    (f.put k c).stores cells = (f.stores cells).put k c := by
  induction cells generalizing f with
  | nil => rfl
  | cons cell cells ih =>
    have here := bounds cell List.mem_cons_self
    change ((f.put k c).put cell.1 cell.2).stores cells =
      ((f.put cell.1 cell.2).stores cells).put k c
    rw [put_comm room bound here (apart cell List.mem_cons_self).symm]
    exact ih (room.put here _) (fun other member => bounds other (List.mem_cons_of_mem _ member))
      fun other member => apart other (List.mem_cons_of_mem _ member)

theorem stores_comm (room : f.Room) (bounds : Seats cells) (bounds' : Seats cells')
    (apart : Apart cells cells') :
    (f.stores cells).stores cells' = (f.stores cells').stores cells := by
  induction cells' generalizing f with
  | nil => rfl
  | cons cell' cells' ih =>
    have here := bounds' cell' List.mem_cons_self
    change ((f.stores cells).put cell'.1 cell'.2).stores cells' =
      ((f.put cell'.1 cell'.2).stores cells').stores cells
    rw [← put_stores room here bounds fun cell member => apart cell member cell' List.mem_cons_self]
    exact ih (room.put here _) (fun other member => bounds' other (List.mem_cons_of_mem _ member))
      fun cell member other member' => apart cell member other (List.mem_cons_of_mem _ member')

/-- A cell that is not stored stays. -/
theorem stores_cell (room : f.Room) (bounds : Seats cells) (apart : ∀ cell ∈ cells, cell.1 ≠ k) :
    (f.stores cells).cell k = f.cell k := by
  induction cells generalizing f with
  | nil => rfl
  | cons cell cells ih =>
    have here := bounds cell List.mem_cons_self
    have other := apart cell List.mem_cons_self
    have step : (f.put cell.1 cell.2).cell k = f.cell k := by
      unfold Room at room
      unfold TrainFile.cell
      rw [put_bytes (by omega), List.getElem?_set_ne (by omega)]
    have rest := ih (room.put here cell.2)
      (fun other member => bounds other (List.mem_cons_of_mem _ member))
      (fun other member => apart other (List.mem_cons_of_mem _ member))
    exact rest.trans step

end TrainFile

/-! ## Edits -/

namespace Tables

variable {cfg : Config} {t : Tables} {i j k : Nat} {fd fd' : Int} {e e' : Edit}

/-- Edits of different connections at different cells commute. -/
theorem edit_comm (different : i ≠ j) (room : fd = fd' → (t.files fd).Room)
    (bounds : TrainFile.Seats e.cells) (bounds' : TrainFile.Seats e'.cells)
    (apart : fd = fd' → TrainFile.Apart e.cells e'.cells) :
    (t.edit i fd e).edit j fd' e' = (t.edit j fd' e').edit i fd e := by
  have files : Function.update (Function.update t.files fd ((t.files fd).stores e.cells)) fd'
        ((Function.update t.files fd ((t.files fd).stores e.cells) fd').stores e'.cells) =
      Function.update (Function.update t.files fd' ((t.files fd').stores e'.cells)) fd
        ((Function.update t.files fd' ((t.files fd').stores e'.cells) fd).stores e.cells) := by
    by_cases same : fd = fd'
    · subst same
      simp only [Function.update_self, Function.update_idem]
      rw [TrainFile.stores_comm (room rfl) bounds bounds' (apart rfl)]
    · rw [Function.update_of_ne (Ne.symm same), Function.update_of_ne same]
      exact Function.update_comm same _ _ _
  unfold edit
  dsimp only
  rw [files, Function.update_comm different, Function.update_comm different]

/-- An edit replaces the request, with the line in it. -/
theorem edit_store {line : List Char} : (t.store i line).edit i fd e = t.edit i fd e := by
  simp [edit, store, setRequest]

end Tables

/-! ## What a reaction depends on -/

/-- The loop has not come to the later seats. -/
theorem Edit.payTurns_later {e : Edit} {n k : Nat} (later : n ≤ k) :
    (e.payTurns n).record.seatStat k = e.record.seatStat k := by
  induction n with
  | zero => rfl
  | succ n ih =>
    rw [← ih (by omega), payTurns, payTurn]
    split
    · simp [Record.setSeat, show k ≠ n by omega]
    · rfl

/-- The loop stores cells of chosen seats. -/
theorem Edit.payTurns_cells {e : Edit} (none : e.cells = []) {n : Nat} :
    ∀ cell ∈ (e.payTurns n).cells, cell.1 < n ∧ e.record.seatStat cell.1 = .CHOSEN := by
  induction n with
  | zero => simp [payTurns, none]
  | succ n ih =>
    rw [payTurns, payTurn]
    split
    · rename_i chosen
      rw [payTurns_later (Nat.le_refl n)] at chosen
      intro cell member
      rcases List.mem_append.mp member with before | last
      · obtain ⟨bound, held⟩ := ih cell before
        exact ⟨by omega, held⟩
      · rw [List.mem_singleton.mp last]
        exact ⟨Nat.lt_succ_self n, chosen⟩
    · intro cell member
      obtain ⟨bound, held⟩ := ih cell member
      exact ⟨by omega, held⟩

section

variable {q : Request} {r : Record} {code code' : Nat → Int}

/-- The line is a command on the seat of a number. -/
def Request.Numbers (q : Request) : Prop :=
  q.status ≠ .BOOKED ∧ q.buf ≠ "exit".toList ∧ q.buf ≠ "pay".toList ∧ atoi q.buf ≠ 0

/-- Only a command on a seat looks at a cell. -/
theorem react_congr (same : q.Numbers → ∀ call, code call = code' call) :
    react q r code = react q r code' := by
  unfold react
  split
  · rfl
  rename_i exits
  split
  · rfl
  rename_i booked
  split
  · rfl
  rename_i pays
  split
  · rfl
  rename_i number
  have codes : code = code' := funext (same ⟨booked, exits, pays, number⟩)
  rw [codes]

/-- A reaction stores the cell of the seat, or cells of chosen seats. -/
theorem react_cells :
    ∀ cell ∈ (react q r code).1.cells,
      (q.Numbers ∧ cell.1 = (atoi q.buf - 1).toNat) ∨
        (q.status ≠ .BOOKED ∧ q.buf = "pay".toList ∧ cell.1 < SEAT_NUM ∧
          r.seatStat cell.1 = .CHOSEN) := by
  unfold react
  split
  · simp [Edit.ended]
  rename_i exits
  split
  · split
    · simp [Edit.same]
    · simp [Edit.ended]
  rename_i booked
  split
  · rename_i pays
    unfold reactPay
    split
    · simp [Edit.same]
    · intro cell member
      have stored : cell.1 < SEAT_NUM ∧ (Edit.same q r).record.seatStat cell.1 = .CHOSEN :=
        Edit.payTurns_cells rfl cell member
      exact .inr ⟨booked, pays, stored⟩
  rename_i pays
  split
  · simp [Edit.ended]
  rename_i number
  have numbers : q.Numbers := ⟨booked, exits, pays, number⟩
  dsimp only
  split
  · intro cell member
    rw [List.mem_singleton.mp member]
    exact .inl ⟨numbers, rfl⟩
  · unfold reactChoose
    split
    · intro cell member
      rw [List.mem_singleton.mp member]
      exact .inl ⟨numbers, rfl⟩
    split
    · simp [Edit.same]
    split
    · simp [Edit.same]
    · simp [Edit.ended]

theorem reactChoose_silent :
    (reactChoose q r k code).2 = [] → (reactChoose q r k code).1 = .ended := by
  unfold reactChoose
  split
  · exact fun silent => nomatch silent
  split
  · exact fun silent => nomatch silent
  split
  · exact fun silent => nomatch silent
  · exact fun _ => rfl

/-- A client that is told nothing is disconnected. -/
theorem react_silent : (react q r code).2 = [] → (react q r code).1 = .ended := by
  unfold react reactPay reactCancel
  split
  · exact fun silent => nomatch silent
  split
  · split <;> exact fun silent => nomatch silent
  split
  · split <;> exact fun silent => nomatch silent
  split
  · exact fun silent => nomatch silent
  dsimp only
  split
  · exact fun silent => nomatch silent
  · exact reactChoose_silent

end

namespace Tables

variable {cfg : Config} {t u : Tables} {i : Nat} {j : Fin TRAIN_NUM}

/-- The pairs of a train and a seat that the stored line of connection `i` concerns. -/
def concerns (cfg : Config) (t : Tables) (i : Nat) : Set (Fin TRAIN_NUM × Nat) :=
  {place | t.On cfg i place.1 ∧
    (t.SeatLine i ∧ atoi (t.requestP i).buf = place.2 + 1 ∨
      (t.requestP i).status = .SEAT ∧ (t.requestP i).buf = "pay".toList ∧ place.2 < SEAT_NUM ∧
        (t.recordP i).seatStat place.2 = .CHOSEN)}

/-- Connection `i` is in `SEAT` or `BOOKED` on train `j`, and its line is within the seats. -/
structure Customer (cfg : Config) (t : Tables) (i : Nat) (j : Fin TRAIN_NUM) (line : List Char) :
    Prop where
  live : t.Live cfg i
  status : (t.requestP i).status = .SEAT ∨ (t.requestP i).status = .BOOKED
  on : t.On cfg i j
  range : (t.store i line).SeatOrNone i

theorem Customer.stored_status {line : List Char} (customer : t.Customer cfg i j line) :
    ((t.store i line).requestP i).status = .SEAT ∨
      ((t.store i line).requestP i).status = .BOOKED := by
  simpa [store, setRequest] using customer.status

/-- A command on a seat number is a seat line. -/
theorem seatLine_of_numbers
    (status : (t.requestP i).status = .SEAT ∨ (t.requestP i).status = .BOOKED)
    (numbers : (t.requestP i).Numbers) : t.SeatLine i :=
  ⟨status.resolve_right numbers.1, numbers.2.1, numbers.2.2.1⟩

/-- The cells of a reaction are those of concerned seats. -/
theorem reaction_concerns (env : Env)
    (status : (t.requestP i).status = .SEAT ∨ (t.requestP i).status = .BOOKED) (on : t.On cfg i j)
    (range : t.SeatOrNone i) :
    ∀ cell ∈ (t.reaction cfg env i j).1.cells,
      cell.1 < SEAT_NUM ∧ (j, cell.1) ∈ t.concerns cfg i := by
  intro cell member
  rcases react_cells cell member with ⟨numbers, place⟩ | ⟨booked, pays, bound, chosen⟩
  · have line := seatLine_of_numbers status numbers
    have within := range line
    have some := numbers.2.2.2
    exact ⟨by omega, on, .inl ⟨line, by omega⟩⟩
  · exact ⟨bound, on, .inr ⟨status.resolve_right booked, pays, bound, chosen⟩⟩

/-- The reaction depends on the slot of the connection and on the cells it concerns. -/
theorem reaction_congr {env : Env}
    (status : (t.requestP i).status = .SEAT ∨ (t.requestP i).status = .BOOKED) (on : t.On cfg i j)
    (range : t.SeatOrNone i) (request : u.requestP i = t.requestP i)
    (record : u.recordP i = t.recordP i)
    (cells : ∀ k, (j, k) ∈ t.concerns cfg i → u.seatByte cfg j k = t.seatByte cfg j k) :
    u.reaction cfg env i j = t.reaction cfg env i j := by
  unfold reaction
  rw [request, record]
  apply react_congr
  intro numbers call
  have line := seatLine_of_numbers status numbers
  have within := range line
  have some := numbers.2.2.2
  unfold code
  rw [cells _ ⟨on, .inl ⟨line, by omega⟩⟩]

end Tables

/-! ## Two lines -/

namespace World

variable {cfg : Config} {w t : World} {i j : Nat} {a b : Fin TRAIN_NUM} {lineI lineJ : List Char}
  {envI envJ : Env}

/-- The server behind a line of connection `i`; when it has ended it serves nobody. -/
def serve (cfg : Config) (w : World) (i : Nat) (line : List Char) (env : Env) : World :=
  if w.halt.isSome then w else (w.store i line).handleLine cfg env i

/-- `serve` is the step that reads the line. -/
theorem step_eq_serve {chunk : List Char} {env : Env} (running : w.halt = none)
    (live : w.Live cfg i) (whole : chunk.length ≤ MAX_MSG_LEN)
    (line : handleRead chunk = .line lineI) :
    w.step cfg (.recv i chunk env) = some (w.serve cfg i lineI env) := by
  unfold step serve
  rw [running, if_neg (by simp), if_neg (by simp)]
  dsimp only
  rw [if_pos ⟨live, whole⟩, line]

theorem serve_did (env : Env) (running : w.halt = none) (customer : w.Customer cfg i a lineI)
    (kept : ¬ (w.store i lineI).Slips i) :
    Did (w.store i lineI) (w.serve cfg i lineI env) i (cfg.trains a)
      ((w.store i lineI).reaction cfg env i a) := by
  unfold serve
  rw [running, if_neg (by simp)]
  exact handleLine_did running customer.live.1 customer.stored_status customer.on customer.range
    kept

end World

namespace Tables

variable {cfg : Config} {t u : Tables} {i j : Nat} {a b : Fin TRAIN_NUM} {line : List Char}

section Congruence

variable (request : u.requestP i = t.requestP i) (record : u.recordP i = t.recordP i)

include request

/-- The slot of a stored line. -/
theorem store_requestP (line : List Char) :
    (u.store i line).requestP i = (t.store i line).requestP i := by
  simp [store, setRequest, request]

theorem seatLine_congr : u.SeatLine i ↔ t.SeatLine i := by
  unfold SeatLine
  rw [request]

include record

theorem Customer.congr (customer : t.Customer cfg i a line) : u.Customer cfg i a line where
  live := by
    unfold Live
    rw [request]
    exact customer.live
  status := by
    rw [request]
    exact customer.status
  on := by
    unfold On
    rw [record]
    exact customer.on
  range := by
    have stored := store_requestP request line
    unfold SeatOrNone
    rw [seatLine_congr stored, stored]
    exact customer.range

theorem slips_congr : (u.store i line).Slips i ↔ (t.store i line).Slips i := by
  have stored := store_requestP request line
  have same : (u.store i line).recordP i = (t.store i line).recordP i := record
  unfold Slips
  rw [seatLine_congr stored, stored, same]

end Congruence

/-- What an edit leaves alone. -/
theorem edit_others {fd : Int} {e : Edit} (other : j ≠ i) :
    (t.edit i fd e).requestP j = t.requestP j ∧ (t.edit i fd e).recordP j = t.recordP j := by
  simp [edit, other]

theorem edit_seatByte {e : Edit} {k : Nat} (framed : t.Framed cfg)
    (bounds : TrainFile.Seats e.cells) (apart : b = a → ∀ cell ∈ e.cells, cell.1 ≠ k) :
    (t.edit i (cfg.trains a) e).seatByte cfg b k = t.seatByte cfg b k := by
  unfold seatByte edit
  by_cases same : b = a
  · subst same
    dsimp only
    rw [Function.update_self, TrainFile.stores_cell (framed.sized b) bounds (apart rfl)]
  · dsimp only
    rw [Function.update_of_ne (trains_ne same)]

end Tables

namespace World

variable {cfg : Config} {w t : World} {i j : Nat} {a b : Fin TRAIN_NUM} {lineI lineJ : List Char}
  {envI envJ : Env}

/-- The seats that the two lines concern are different. -/
def Apart (cfg : Config) (w : World) (i j : Nat) (lineI lineJ : List Char) : Prop :=
  ∀ cell ∈ (w.store i lineI).concerns cfg i, cell ∉ (w.store j lineJ).concerns cfg j

theorem Apart.symm {lineI lineJ : List Char} (apart : w.Apart cfg i j lineI lineJ) :
    w.Apart cfg j i lineJ lineI :=
  fun cell theirs mine => apart cell mine theirs

/-- The line that was stored shows in its answer only. -/
theorem Did.stored {line : List Char} {fd : Int} {answer : Edit × List (List Char)}
    (did : (w.store i line).Did t i fd answer) :
    t.settle = w.settle.edit i fd answer.1 ∧
      t.sent = w.sent ++ answer.2.map fun text => ((w.requestP i).connFd, text) := by
  have absorbed : (w.settle.store i line).edit i fd answer.1 = w.settle.edit i fd answer.1 :=
    Tables.edit_store
  have conn : ((w.store i line).requestP i).connFd = (w.requestP i).connFd := by
    simp [store, setRequest]
  have sent := did.sent
  rw [conn] at sent
  exact ⟨did.books.trans absorbed, sent⟩

/-- Another connection keeps its slot. -/
theorem Did.others {line : List Char} {fd : Int} {answer : Edit × List (List Char)}
    (did : (w.store i line).Did t i fd answer) (different : j ≠ i) :
    t.requestP j = w.requestP j ∧ t.recordP j = w.recordP j := by
  have books := did.stored.1
  have untouched : (w.settle.edit i fd answer.1).requestP j = w.requestP j ∧
      (w.settle.edit i fd answer.1).recordP j = w.recordP j := Tables.edit_others different
  exact ⟨(congrArg (fun t => t.requestP j) books).trans untouched.1,
    (congrArg (fun t => t.recordP j) books).trans untouched.2⟩

/-- The second line finds its slot and its cells as they were. -/
theorem serve_serve (envI envJ : Env) (framed : w.Framed cfg) (running : w.halt = none)
    (different : i ≠ j)
    (customerI : w.Customer cfg i a lineI) (customerJ : w.Customer cfg j b lineJ)
    (apart : w.Apart cfg i j lineI lineJ) (keptI : ¬ (w.store i lineI).Slips i)
    (keptJ : ¬ (w.store j lineJ).Slips j) :
    ((w.serve cfg i lineI envI).serve cfg j lineJ envJ).settle =
        (w.settle.edit i (cfg.trains a) ((w.store i lineI).reaction cfg envI i a).1).edit j
          (cfg.trains b) ((w.store j lineJ).reaction cfg envJ j b).1 ∧
      ((w.serve cfg i lineI envI).serve cfg j lineJ envJ).sent = w.sent ++
        ((w.store i lineI).reaction cfg envI i a).2.map (fun text => ((w.requestP i).connFd, text)) ++
        ((w.store j lineJ).reaction cfg envJ j b).2.map
          (fun text => ((w.requestP j).connFd, text)) := by
  have didI := serve_did envI running customerI keptI
  have concernsI : ∀ cell ∈ ((w.store i lineI).reaction cfg envI i a).1.cells,
      cell.1 < SEAT_NUM ∧ (a, cell.1) ∈ (w.store i lineI).concerns cfg i :=
    Tables.reaction_concerns envI customerI.stored_status customerI.on customerI.range
  generalize (w.store i lineI).reaction cfg envI i a = answerI at didI concernsI ⊢
  generalize w.serve cfg i lineI envI = t at didI ⊢
  obtain ⟨books, sent⟩ := didI.stored
  obtain ⟨request, record⟩ := didI.others different.symm
  have didJ := serve_did envJ didI.halt (customerJ.congr request record)
    ((Tables.slips_congr request record).not.mpr keptJ)
  have cells : ∀ k, (b, k) ∈ (w.store j lineJ).concerns cfg j →
      t.seatByte cfg b k = w.seatByte cfg b k := by
    intro k concerned
    have framed' : w.settle.Framed cfg := ⟨framed.slots, framed.sized⟩
    have settled : t.settle.seatByte cfg b k = w.settle.seatByte cfg b k := by
      rw [books]
      apply Tables.edit_seatByte framed' fun cell member => (concernsI cell member).1
      intro same cell member here
      have mine := (concernsI cell member).2
      rw [here, ← same] at mine
      exact apart _ mine concerned
    exact settled
  have reaction : (t.store j lineJ).reaction cfg envJ j b =
      (w.store j lineJ).reaction cfg envJ j b :=
    Tables.reaction_congr customerJ.stored_status customerJ.on customerJ.range
      (Tables.store_requestP request lineJ) record cells
  rw [reaction] at didJ
  refine ⟨?_, ?_⟩
  · rw [didJ.stored.1, books]
  · rw [didJ.stored.2, sent, request]

/-- Statuses, records, train files and what every client was told are the same. -/
structure Agree (w t : World) : Prop where
  statuses : ∀ k, (t.requestP k).status = (w.requestP k).status
  records : t.recordP = w.recordP
  files : ∀ fd, (t.files fd).bytes = (w.files fd).bytes
  replies : ∀ fd, t.sent.filter (·.1 = fd) = w.sent.filter (·.1 = fd)

theorem Agree.symm (agree : Agree w t) : Agree t w where
  statuses k := (agree.statuses k).symm
  records := agree.records.symm
  files fd := (agree.files fd).symm
  replies fd := (agree.replies fd).symm

/-- Messages to two descriptors, in either order. -/
theorem filter_swap {fdI fdJ : Int} (different : fdI ≠ fdJ) (sent : List (Int × List Char))
    (textsI textsJ : List (List Char)) (fd : Int) :
    (sent ++ textsI.map (fun text => (fdI, text)) ++ textsJ.map (fun text => (fdJ, text))).filter
        (·.1 = fd) =
      (sent ++ textsJ.map (fun text => (fdJ, text)) ++ textsI.map (fun text => (fdI, text))).filter
        (·.1 = fd) := by
  have none : ∀ {fd' : Int} (texts : List (List Char)), fd' ≠ fd →
      (texts.map fun text => (fd', text)).filter (·.1 = fd) = [] := by
    intro fd' texts other
    simp [List.filter_map, Function.comp_def, other]
  simp only [List.filter_append]
  by_cases first : fdI = fd
  · have second : fdJ ≠ fd := fun same => different (first.trans same.symm)
    rw [none textsJ second]
    simp
  · rw [none textsI first]
    simp

/-- A live connection is sent to on its own descriptor. -/
theorem connFd_of_live (framed : w.Framed cfg) (live : w.Live cfg i) :
    (w.requestP i).connFd = i :=
  (framed.slots i).resolve_left live.2.1

theorem agree_of_kept (framed : w.Framed cfg) (running : w.halt = none) (different : i ≠ j)
    (customerI : w.Customer cfg i a lineI) (customerJ : w.Customer cfg j b lineJ)
    (apart : w.Apart cfg i j lineI lineJ) (keptI : ¬ (w.store i lineI).Slips i)
    (keptJ : ¬ (w.store j lineJ).Slips j) :
    Agree ((w.serve cfg i lineI envI).serve cfg j lineJ envJ)
      ((w.serve cfg j lineJ envJ).serve cfg i lineI envI) := by
  obtain ⟨booksIJ, sentIJ⟩ := serve_serve envI envJ framed running different customerI customerJ
    apart keptI keptJ
  obtain ⟨booksJI, sentJI⟩ := serve_serve envJ envI framed running different.symm customerJ
    customerI apart.symm keptJ keptI
  have concernsI : ∀ cell ∈ ((w.store i lineI).reaction cfg envI i a).1.cells,
      cell.1 < SEAT_NUM ∧ (a, cell.1) ∈ (w.store i lineI).concerns cfg i :=
    Tables.reaction_concerns envI customerI.stored_status customerI.on customerI.range
  have concernsJ : ∀ cell ∈ ((w.store j lineJ).reaction cfg envJ j b).1.cells,
      cell.1 < SEAT_NUM ∧ (b, cell.1) ∈ (w.store j lineJ).concerns cfg j :=
    Tables.reaction_concerns envJ customerJ.stored_status customerJ.on customerJ.range
  have cells : (cfg.trains a : Int) = cfg.trains b →
      TrainFile.Apart ((w.store i lineI).reaction cfg envI i a).1.cells
        ((w.store j lineJ).reaction cfg envJ j b).1.cells := by
    intro sameFd cell member cell' member' same
    have train : a = b := cfg.distinct (Int.ofNat.inj sameFd)
    have mine := (concernsI cell member).2
    have theirs := (concernsJ cell' member').2
    rw [same, train] at mine
    exact apart _ mine theirs
  have room : (cfg.trains a : Int) = cfg.trains b → (w.settle.files (cfg.trains a)).Room :=
    fun _ => framed.sized a
  have books : ((w.serve cfg j lineJ envJ).serve cfg i lineI envI).settle =
      ((w.serve cfg i lineI envI).serve cfg j lineJ envJ).settle := by
    rw [booksJI, booksIJ]
    exact (Tables.edit_comm different room (fun cell member => (concernsI cell member).1)
      (fun cell member => (concernsJ cell member).1) cells).symm
  refine ⟨fun k => ?_, Tables.recordP_of_settle books, Tables.bytes_of_settle books, fun fd => ?_⟩
  · rw [Tables.requestP_of_settle books]
  · rw [sentIJ, sentJI]
    apply filter_swap
    rw [connFd_of_live framed customerI.live, connFd_of_live framed customerJ.live]
    omega

/-- What a line that slips leaves. -/
theorem serve_slips (env : Env) (running : w.halt = none) (inside : i < cfg.maxfd)
    (slips : (w.store i lineI).Slips i) :
    (w.serve cfg i lineI env).halt.isSome ∧ (w.serve cfg i lineI env).sent = w.sent ∧
      (w.serve cfg i lineI env).toTables =
        (w.toTables.store i lineI).setRecord i { w.recordP i with numOfChosenSeats := -1 } := by
  obtain ⟨halt, sent, tables⟩ :=
    handleSeat_slips (w := w.store i lineI) env running slips inside
  unfold serve
  rw [running, if_neg (by simp), handleLine_seatLine slips.1, halt]
  exact ⟨rfl, sent, tables⟩

/-- When the first line ends the process the second is not served, which shows. -/
theorem not_slips_of_agree (running : w.halt = none) (different : i ≠ j)
    (customerI : w.Customer cfg i a lineI) (customerJ : w.Customer cfg j b lineJ)
    (agree : Agree ((w.serve cfg i lineI envI).serve cfg j lineJ envJ)
      ((w.serve cfg j lineJ envJ).serve cfg i lineI envI)) : ¬ (w.store i lineI).Slips i := by
  intro slipsI
  obtain ⟨haltI, sentI, tablesI⟩ := serve_slips envI running customerI.live.1 slipsI
  have first : (w.serve cfg i lineI envI).serve cfg j lineJ envJ = w.serve cfg i lineI envI := by
    rw [serve, if_pos haltI]
  rw [first] at agree
  by_cases slipsJ : (w.store j lineJ).Slips j
  · obtain ⟨haltJ, sentJ, tablesJ⟩ := serve_slips envJ running customerJ.live.1 slipsJ
    have second : (w.serve cfg j lineJ envJ).serve cfg i lineI envI =
        w.serve cfg j lineJ envJ := by
      rw [serve, if_pos haltJ]
    have records := agree.records
    rw [second, tablesI, tablesJ] at records
    have counter := congrArg (fun records => (records j).numOfChosenSeats) records
    have one : (w.recordP j).numOfChosenSeats = 1 := slipsJ.2.2
    simp [Tables.setRecord, Tables.store, Tables.setRequest, different.symm, one] at counter
  · have didJ := serve_did envJ running customerJ slipsJ
    generalize w.serve cfg j lineJ envJ = u at didJ agree
    have untouched : u.requestP i = w.requestP i ∧ u.recordP i = w.recordP i := by
      have request := congrArg (fun t => t.requestP i) didJ.books
      have record := congrArg (fun t => t.recordP i) didJ.books
      simp only [Tables.edit, Tables.settle_requestP, Tables.settle_recordP,
        Function.update_of_ne different] at request record
      exact ⟨request.trans (by simp [store, setRequest, different]), record⟩
    have slipsU := (Tables.slips_congr untouched.1 untouched.2).mpr slipsI
    obtain ⟨_, sentU, tablesU⟩ := serve_slips envI didJ.halt customerI.live.1 slipsU
    have silent : ((w.store j lineJ).reaction cfg envJ j b).2 = [] := by
      have replies := agree.replies (((w.store j lineJ).requestP j).connFd)
      have before : (w.store j lineJ).sent = w.sent := rfl
      rw [sentU, sentI, didJ.sent, before, List.filter_append, List.append_right_eq_self,
        List.filter_eq_nil_iff] at replies
      by_contra some
      obtain ⟨text, member⟩ := List.exists_mem_of_ne_nil _ some
      exact replies _ (List.mem_map.mpr ⟨text, member, rfl⟩) (by simp)
    have closed : ((w.store j lineJ).reaction cfg envJ j b).1 = .ended := react_silent silent
    have status := agree.statuses j
    rw [tablesU, tablesI] at status
    have request := congrArg (fun t => (t.requestP j).status) didJ.books
    simp [Tables.edit, closed, Edit.ended, freeRequest] at request
    simp [Tables.setRecord, Tables.store, Tables.setRequest, different.symm, request] at status
    rcases customerJ.status with seat | booked
    · rw [seat] at status
      cases status
    · rw [booked] at status
      cases status

end World

variable {cfg : Config} {heap : Nat → List Char} {disk : Fin TRAIN_NUM → List Char}

/-- In every state of every run on train files with a byte for every seat, lines of two clients
in `SEAT` or `BOOKED` that concern different seats do the same in either order, exactly if
neither is a command that is no number of a client with one chosen seat. -/
theorem commute_iff (sized : Sized disk) {w : World}
    (reached : (machine cfg heap disk).Reach Machine.anyStep w) (running : w.halt = none)
    {i j : Nat} (different : i ≠ j) {a b : Fin TRAIN_NUM} {lineI lineJ : List Char}
    (customerI : w.Customer cfg i a lineI) (customerJ : w.Customer cfg j b lineJ)
    (apart : w.Apart cfg i j lineI lineJ) (envI envJ : Env) :
    World.Agree ((w.serve cfg i lineI envI).serve cfg j lineJ envJ)
        ((w.serve cfg j lineJ envJ).serve cfg i lineI envI) ↔
      ¬ (w.store i lineI).Slips i ∧ ¬ (w.store j lineJ).Slips j := by
  have framed := framed_reached sized reached
  constructor
  · intro agree
    exact ⟨World.not_slips_of_agree running different customerI customerJ agree,
      World.not_slips_of_agree running different.symm customerJ customerI agree.symm⟩
  · rintro ⟨keptI, keptJ⟩
    exact World.agree_of_kept framed running different customerI customerJ apart keptI keptJ

/-- Clients on 9 and 10 choose seats of the same train, and the one on 9 has chosen one. -/
def Shopping (w : World) : Prop :=
  w.halt = none ∧ (w.Live smallConfig 9 ∧ w.Live smallConfig 10) ∧
    ((w.requestP 9).status = .SEAT ∧ (w.requestP 10).status = .SEAT) ∧
    ((w.recordP 9).trainFd = 3 ∧ (w.recordP 10).trainFd = 3) ∧
    (w.recordP 9).numOfChosenSeats = 1

instance (w : World) : Decidable (Shopping w) := by
  unfold Shopping
  infer_instance

theorem shopping_reached : ∃ w, smallServer.Reach Machine.anyStep w ∧ Shopping w := by
  have ran : (smallServer.exec (fun w action => inRange w action) smallStart
      [.accept 9, .accept 10, sends 10 "902001", sends 9 "902001", sends 9 "4"]).map
        (fun w => decide (Shopping w)) = some true := by
    decide +kernel
  obtain ⟨w, reached, shopping⟩ := Machine.Reach.of_ran rfl ran
  exact ⟨w, reached.mono fun _ _ _ => trivial, of_decide_eq_true shopping⟩

/-- A customer of the small server, and the seat its line concerns. -/
theorem Shopping.customer {w : World} {i : Nat} (live : w.Live smallConfig i)
    (seat : (w.requestP i).status = .SEAT) (on : (w.recordP i).trainFd = 3) {line : List Char}
    (range : 0 ≤ atoi line ∧ atoi line ≤ SEAT_NUM) :
    w.Customer smallConfig i ⟨0, by decide⟩ line where
  live := live
  status := .inl seat
  on := on
  range _ := by simpa [Tables.store, Tables.setRequest] using range

/-- A seat line and another line that is no `pay`. -/
theorem Shopping.apart {w : World} {lineI lineJ : List Char} (pays : lineI ≠ "pay".toList)
    (paysJ : lineJ ≠ "pay".toList) (different : atoi lineI ≠ atoi lineJ) :
    w.Apart smallConfig 9 10 lineI lineJ := by
  have stored : ∀ i line, ((w.store i line).requestP i).buf = line := by
    intro i line
    simp [World.store, World.setRequest]
  rintro ⟨j, k⟩ ⟨_, mine⟩ ⟨_, theirs⟩
  rw [stored] at mine theirs
  rcases mine with ⟨_, number⟩ | ⟨_, pay, _⟩
  · rcases theirs with ⟨_, number'⟩ | ⟨_, pay', _⟩
    · exact different (number.trans number'.symm)
    · exact paysJ pay'
  · exact pays pay

/-- Seats 7 and 9 are chosen in either order. -/
theorem commute_two_seats :
    ∃ w, smallServer.Reach Machine.anyStep w ∧
      World.Agree ((w.serve smallConfig 9 "7".toList .quiet).serve smallConfig 10 "9".toList .quiet)
        ((w.serve smallConfig 10 "9".toList .quiet).serve smallConfig 9 "7".toList .quiet) := by
  obtain ⟨w, reached, shopping⟩ := shopping_reached
  obtain ⟨running, ⟨live, live'⟩, ⟨seat, seat'⟩, ⟨on, on'⟩, one⟩ := shopping
  have customer : w.Customer smallConfig 9 ⟨0, by decide⟩ "7".toList :=
    Shopping.customer live seat on (by decide)
  have customer' : w.Customer smallConfig 10 ⟨0, by decide⟩ "9".toList :=
    Shopping.customer live' seat' on' (by decide)
  have apart : w.Apart smallConfig 9 10 "7".toList "9".toList :=
    Shopping.apart (by decide) (by decide) (by decide)
  refine ⟨w, reached, (commute_iff freeTrain_sized reached running (by decide) customer customer'
    apart .quiet .quiet).mpr ⟨fun slips => ?_, fun slips => ?_⟩⟩
  · have number := slips.2.1
    simp [World.store, World.setRequest] at number
    exact absurd number (by decide)
  · have number := slips.2.1
    simp [World.store, World.setRequest] at number
    exact absurd number (by decide)

/-- The client on 9 sends `seat` with one seat chosen, and the other client's line is lost. -/
theorem commute_loses_line :
    ∃ w, smallServer.Reach Machine.anyStep w ∧ w.halt = none ∧
      w.Customer smallConfig 9 ⟨0, by decide⟩ "seat".toList ∧
      w.Customer smallConfig 10 ⟨0, by decide⟩ "7".toList ∧
      w.Apart smallConfig 9 10 "seat".toList "7".toList ∧
      ¬ World.Agree
        ((w.serve smallConfig 9 "seat".toList .quiet).serve smallConfig 10 "7".toList .quiet)
        ((w.serve smallConfig 10 "7".toList .quiet).serve smallConfig 9 "seat".toList .quiet) := by
  obtain ⟨w, reached, shopping⟩ := shopping_reached
  obtain ⟨running, ⟨live, live'⟩, ⟨seat, seat'⟩, ⟨on, on'⟩, one⟩ := shopping
  have customer : w.Customer smallConfig 9 ⟨0, by decide⟩ "seat".toList :=
    Shopping.customer live seat on (by decide)
  have customer' : w.Customer smallConfig 10 ⟨0, by decide⟩ "7".toList :=
    Shopping.customer live' seat' on' (by decide)
  refine ⟨w, reached, running, customer, customer',
    Shopping.apart (by decide) (by decide) (by decide), fun agree => ?_⟩
  apply World.not_slips_of_agree running (by decide) customer customer' agree
  refine ⟨⟨?_, ?_, ?_⟩, ?_, one⟩
  · simpa [World.store, World.setRequest] using seat
  all_goals
    simp [World.store, World.setRequest]
  all_goals decide

end NTUSP.Server
