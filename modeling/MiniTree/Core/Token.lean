import Mathlib.Logic.Basic

/-!
# A resource with one unit

At any time the unit of a binary resource is in the pool, at one place, or lost.
`AtMostOne count P` says so for a pool that counts `count` units and the places `P`
where a unit is. The lemmas are the moves a protocol can make: take the unit out of
the pool, pass it on, put it back, lose it.
-/

namespace MiniTree.Core

variable {ι : Type*} {count n : Nat} {P Q : ι → Prop} {a b : ι}

structure AtMostOne (count : Nat) (P : ι → Prop) : Prop where
  pool : count ≤ 1
  unique : ∀ i j, P i → P j → i = j
  apart : ∀ i, P i → count = 0

namespace AtMostOne

theorem empty (hn : n ≤ 1) (hQ : ∀ i, ¬ Q i) : AtMostOne n Q :=
  ⟨hn, fun i _ hi => absurd hi (hQ i), fun i hi => absurd hi (hQ i)⟩

section
variable (h : AtMostOne count P)
include h

theorem none_of_pos (hc : 0 < count) (i : ι) : ¬ P i := fun hi => by
  have := h.apart i hi
  omega

/-- Units may be lost. -/
theorem mono (hn : n ≤ count) (hQ : ∀ i, Q i → P i) : AtMostOne n Q where
  pool := Nat.le_trans hn h.pool
  unique i j hi hj := h.unique i j (hQ i hi) (hQ j hj)
  apart i hi := by
    have := h.apart i (hQ i hi)
    omega

/-- The unit goes from the pool to `a`. -/
theorem take (hc : 0 < count) (hQ : ∀ i, Q i → i = a ∨ P i) : AtMostOne (count - 1) Q := by
  have hone : ∀ i, Q i → i = a := fun i hi => (hQ i hi).resolve_right (h.none_of_pos hc i)
  have hpool := h.pool
  exact ⟨by omega, fun i j hi hj => (hone i hi).trans (hone j hj).symm, fun _ _ => by omega⟩

/-- The unit goes from `a` to `b`. -/
theorem move (ha : P a) (hQ : ∀ i, Q i → i = b ∨ P i ∧ i ≠ a) : AtMostOne count Q := by
  have hone : ∀ i, Q i → i = b := fun i hi =>
    (hQ i hi).resolve_right fun ⟨hi, hne⟩ => hne (h.unique i a hi ha)
  exact ⟨h.pool, fun i j hi hj => (hone i hi).trans (hone j hj).symm, fun _ _ => h.apart a ha⟩

/-- The unit goes from `a` to the pool, or is lost. -/
theorem put (ha : P a) (hn : n ≤ 1) (hQ : ∀ i, Q i → P i ∧ i ≠ a) : AtMostOne n Q :=
  empty hn fun i hi => (hQ i hi).2 (h.unique i a (hQ i hi).1 ha)

end

end AtMostOne

end MiniTree.Core
