import Mathlib.Logic.Function.Basic

/-!
# A lock and what it guards

A lock as code uses it, one bit, and the places of any number of tasks. The bit
is set as long as some task is inside, and no two are.
-/

namespace TechMart.Python

variable {ι P : Type}

structure Guarded (locked : Bool) (inside : P → Prop) (places : ι → P) : Prop where
  held : locked = true ↔ ∃ i, inside (places i)
  alone : ∀ i j, inside (places i) → inside (places j) → i = j

namespace Guarded

variable {locked : Bool} {inside : P → Prop} {places : ι → P}

theorem start {place : P} (h : ¬ inside place) : Guarded false inside fun _ : ι => place where
  held := by simp [h]
  alone _ _ hi := absurd hi h

theorem locked_of_inside (h : Guarded locked inside places) {i : ι} (hi : inside (places i)) :
    locked = true :=
  h.held.mpr ⟨i, hi⟩

variable [DecidableEq ι]

/-- A step that neither enters nor leaves. -/
theorem stay (h : Guarded locked inside places) {i : ι} {place : P}
    (hplace : inside place ↔ inside (places i)) :
    Guarded locked inside (Function.update places i place) := by
  have hsame (j : ι) : inside (Function.update places i place j) ↔ inside (places j) := by
    by_cases hj : j = i
    · rw [hj, Function.update_self, hplace]
    · rw [Function.update_of_ne hj]
  constructor
  · simp only [hsame, h.held]
  · intro j k
    rw [hsame, hsame]
    exact h.alone j k

/-- Taking the lock, which is free. -/
theorem enter (h : Guarded false inside places) (i : ι) {place : P} (hplace : inside place) :
    Guarded true inside (Function.update places i place) := by
  have hout (j : ι) : ¬ inside (places j) := fun hj => nomatch h.locked_of_inside hj
  have honly (j : ι) (hj : inside (Function.update places i place j)) : j = i := by
    by_contra hne
    rw [Function.update_of_ne hne] at hj
    exact hout j hj
  constructor
  · refine ⟨fun _ => ⟨i, ?_⟩, fun _ => rfl⟩
    rwa [Function.update_self]
  · intro j k hj hk
    rw [honly j hj, honly k hk]

/-- Giving the lock back. -/
theorem leave (h : Guarded locked inside places) {i : ι} (hi : inside (places i)) {place : P}
    (hplace : ¬ inside place) : Guarded false inside (Function.update places i place) := by
  have hout (j : ι) : ¬ inside (Function.update places i place j) := by
    by_cases hj : j = i
    · rwa [hj, Function.update_self]
    · rw [Function.update_of_ne hj]
      intro hinside
      exact hj (h.alone j i hinside hi)
  constructor
  · simp [hout]
  · intro j k hj
    exact absurd hj (hout j)

end Guarded

end TechMart.Python
