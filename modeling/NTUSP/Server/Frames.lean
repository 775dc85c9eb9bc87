import NTUSP.Server.Model

/-!
# What the calls leave alone

Whatever the calls on the train files return, they change neither a request nor a record,
and they look up no train and no seat. `Grew` is the weaker fact that also holds of the
parts of a request that do.
-/

namespace NTUSP.Server

open NTUSP.Library CString

/-- Accesses that all have a property, added in two parts. -/
theorem grown_trans {p : Access → Prop} {first second third : List Access}
    (once : ∃ more, second = first ++ more ∧ ∀ access ∈ more, p access)
    (again : ∃ more, third = second ++ more ∧ ∀ access ∈ more, p access) :
    ∃ more, third = first ++ more ∧ ∀ access ∈ more, p access := by
  obtain ⟨more, rfl, held⟩ := once
  obtain ⟨rest, rfl, held'⟩ := again
  refine ⟨more ++ rest, List.append_assoc .., fun access member => ?_⟩
  exact (List.mem_append.mp member).elim (held access) (held' access)

theorem grown_refl {p : Access → Prop} {first second : List Access} (same : second = first) :
    ∃ more, second = first ++ more ∧ ∀ access ∈ more, p access :=
  ⟨[], by rw [same, List.append_nil], by simp⟩

/-- Between `w` and `t` train files were positioned, read and locked, and lines were sent. -/
structure Aside (w t : World) : Prop where
  requestP : t.requestP = w.requestP
  recordP : t.recordP = w.recordP
  connFd : t.connFd = w.connFd
  trace : ∃ more, t.trace = w.trace ++ more ∧ ∀ access ∈ more, ∃ fd offset, access = .seek fd offset

theorem Aside.trans {w t u : World} (first : Aside w t) (second : Aside t u) : Aside w u where
  requestP := second.requestP.trans first.requestP
  recordP := second.recordP.trans first.recordP
  connFd := second.connFd.trans first.connFd
  trace := grown_trans first.trace second.trace

/-- Files, output and the end of the process do not matter. -/
theorem Aside.of_same {w t : World} (requestP : t.requestP = w.requestP)
    (recordP : t.recordP = w.recordP) (connFd : t.connFd = w.connFd) (trace : t.trace = w.trace) :
    Aside w t where
  requestP := requestP
  recordP := recordP
  connFd := connFd
  trace := grown_refl trace

/-- The accesses of `w` are among those of `t`. -/
def Grew (w t : World) : Prop := w.trace <+: t.trace

theorem Grew.of_same {w t : World} (trace : t.trace = w.trace) : Grew w t :=
  ⟨[], by rw [trace, List.append_nil]⟩

theorem Grew.trans {w t u : World} (first : Grew w t) (second : Grew t u) : Grew w u :=
  List.IsPrefix.trans first second

theorem Aside.grew {w t : World} (aside : Aside w t) : Grew w t := by
  obtain ⟨more, grown, _⟩ := aside.trace
  exact ⟨more, grown.symm⟩

namespace World

variable (cfg : Config) (env : Env) (w : World) (i : Nat)

theorem log_grew (access : Access) : Grew w (w.log access) := ⟨[access], rfl⟩

theorem lseek_aside (fd offset : Int) (fails : Bool) : Aside w (w.lseek cfg fd offset fails).1 := by
  have logged : Aside w (w.log (.seek fd offset)) :=
    ⟨rfl, rfl, rfl, [.seek fd offset], rfl, by simp⟩
  unfold lseek
  dsimp only
  split
  · exact logged
  · exact logged.trans (.of_same rfl rfl rfl rfl)

theorem setLock_aside (fd : Int) (locked : Bool) : Aside w (w.setLock cfg fd locked) := by
  unfold setLock
  split <;> exact .of_same rfl rfl rfl rfl

theorem read_aside (fd : Int) (count : Nat) : Aside w (w.read fd count).1 :=
  .of_same rfl rfl rfl rfl

/-- What `occupied` and `checkCurr` end with. -/
theorem readBack_aside (fd : Int) (count : Nat) (fails : Bool) :
    Aside w (((w.read fd count).1.lseek cfg fd 0 fails).1.setLock cfg fd false) := by
  have rewound := (read_aside w fd count).trans (lseek_aside cfg _ fd 0 fails)
  exact rewound.trans (setLock_aside cfg _ fd false)

theorem occupied_aside (call : Nat) (fd : Int) : Aside w (w.occupied cfg env call fd).1 := by
  have locked := setLock_aside cfg w fd true
  unfold occupied
  dsimp only
  split
  · exact locked
  · exact locked.trans (readBack_aside cfg _ fd 1023 (env.fails .occupiedRewind call))

theorem checkCurr_aside (call : Nat) (checkNum : Int) :
    Aside w (w.checkCurr cfg env call i checkNum).1 := by
  have locked := (lseek_aside cfg w (w.recordP i).trainFd 0
    (env.fails .checkRewind call)).trans (setLock_aside cfg _ (w.recordP i).trainFd true)
  unfold checkCurr
  dsimp only
  split
  · exact locked
  · have sought := locked.trans (lseek_aside cfg _ (w.recordP i).trainFd
      (seatOffset (checkNum - 1)) (env.fails .checkSeek call))
    split
    · exact sought
    split
    · exact sought
    · exact sought.trans
        (readBack_aside cfg _ (w.recordP i).trainFd 1 (env.fails .checkRestore call))

theorem storeCell_aside (trainFd index : Int) (c : Char) :
    Aside w (w.storeCell cfg trainFd index c) := by
  have sought := lseek_aside cfg w trainFd (seatOffset index) false
  unfold storeCell
  dsimp only
  split
  · exact sought.trans (.of_same rfl rfl rfl rfl)
  · refine Aside.trans ?_ (lseek_aside cfg _ trainFd 0 false)
    refine Aside.trans ?_ (setLock_aside cfg _ trainFd false)
    refine Aside.trans (sought.trans (setLock_aside cfg _ trainFd true)) ?_
    exact .of_same rfl rfl rfl rfl

theorem send_aside (text : List Char) : Aside w (w.send i text) := .of_same rfl rfl rfl rfl

/-- A choice reads the cell, and then takes the seat, answers, or ends the connection. -/
theorem choose_cases (bookNum trainFd : Int) :
    ∃ t, Aside w t ∧ (w.choose cfg env i bookNum trainFd = t.take cfg i bookNum trainFd ∨
      w.choose cfg env i bookNum trainFd = t ∨
      w.choose cfg env i bookNum trainFd = t.closeConn i) := by
  have first := checkCurr_aside cfg env w i 0 bookNum
  unfold choose
  split
  · rename_i t found
    rw [found] at first
    exact ⟨t, first, .inr (.inl rfl)⟩
  · rename_i t result found
    rw [found] at first
    split
    · exact ⟨t, first, .inl rfl⟩
    · have second := first.trans (checkCurr_aside cfg env t i 1 bookNum)
      split
      · rename_i t' found'
        rw [found'] at second
        exact ⟨t', second, .inr (.inl rfl)⟩
      · rename_i t' result' found'
        rw [found'] at second
        split
        · exact ⟨_, (second.trans (send_aside t' i seatBookedMsg)).trans (send_aside _ i _),
            .inr (.inl rfl)⟩
        · have third := second.trans (checkCurr_aside cfg env t' i 2 bookNum)
          split
          · rename_i t'' found''
            rw [found''] at third
            exact ⟨t'', third, .inr (.inl rfl)⟩
          · rename_i t'' result'' found''
            rw [found''] at third
            split
            · exact ⟨_, (third.trans (send_aside t'' i lockMsg)).trans (send_aside _ i _),
                .inr (.inl rfl)⟩
            · exact ⟨t'', third, .inr (.inr rfl)⟩

end World
end NTUSP.Server
