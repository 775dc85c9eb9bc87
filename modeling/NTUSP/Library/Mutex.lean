import Mathlib.Tactic.Common

/-!
# A mutex and the threads inside

A mutex has an owner or none, and a thread is inside a critical section or not. `Owned` says that
the two agree: the owner is inside, and nobody else is. A `Handover` is what a step of a thread
may do to the two: nothing, take the free mutex and get in, or give the mutex back and get out. No
program is named here.
-/

namespace NTUSP.Library

universe u

variable {Thread : Type u}

/-- The owner of the mutex is the one thread inside. -/
def Owned (owner : Option Thread) (inside : Thread → Bool) : Prop :=
  ∀ thread, owner = some thread ↔ inside thread = true

/-- What a step of `thread` does to the owner and the threads inside. -/
inductive Handover (thread : Thread) (owner : Option Thread) (inside : Thread → Bool)
    (owner' : Option Thread) (inside' : Thread → Bool) : Prop where
  | stay (kept : owner' = owner) (same : ∀ other, inside' other = inside other)
  | acquire (free : owner = none) (mine : owner' = some thread) (within : inside' thread = true)
      (others : ∀ other, other ≠ thread → inside' other = inside other)
  | release (within : inside thread = true) (freed : owner' = none) (out : inside' thread = false)
      (others : ∀ other, other ≠ thread → inside' other = inside other)

namespace Owned

variable {owner owner' : Option Thread} {inside inside' : Thread → Bool} {thread other : Thread}

/-- Nobody is inside of a free mutex. -/
theorem of_free (nobody : ∀ thread, inside thread = false) : Owned none inside :=
  fun thread => iff_of_false (by simp) (by simp [nobody])

/-- Two threads are not inside together. -/
theorem unique (owned : Owned owner inside) (first : inside thread = true)
    (second : inside other = true) : thread = other := by
  have mine := (owned thread).mpr first
  have theirs := (owned other).mpr second
  exact Option.some.inj (mine.symm.trans theirs)

theorem outside_of_free (owned : Owned none inside) (thread : Thread) : inside thread = false := by
  cases within : inside thread with
  | false => rfl
  | true => exact absurd ((owned thread).mpr within) (by simp)

/-- Step rule: a handover leaves the owner alone inside. -/
theorem handover (owned : Owned owner inside)
    (step : Handover thread owner inside owner' inside') : Owned owner' inside' := by
  cases step with
  | stay kept same =>
      intro other
      rw [kept, same]
      exact owned other
  | acquire free mine within others =>
      subst free
      intro other
      by_cases here : other = thread
      · subst here
        exact iff_of_true mine within
      · rw [mine, others other here, owned.outside_of_free]
        exact iff_of_false (fun equal => here (Option.some.inj equal).symm) (by simp)
  | release within freed out others =>
      rw [freed]
      apply of_free
      intro other
      by_cases here : other = thread
      · rw [here, out]
      · rw [others other here]
        cases still : inside other with
        | false => rfl
        | true => exact absurd (owned.unique still within) here

/-- The mutex only changes hands by a thread that takes it free or gives its own back. -/
theorem changes (owned : Owned owner inside)
    (step : Handover thread owner inside owner' inside') :
    owner' = owner ∨ (owner = none ∧ owner' = some thread) ∨
      (owner = some thread ∧ owner' = none) := by
  cases step with
  | stay kept => exact .inl kept
  | acquire free mine => exact .inr (.inl ⟨free, mine⟩)
  | release within freed => exact .inr (.inr ⟨(owned thread).mpr within, freed⟩)

end Owned

end NTUSP.Library
