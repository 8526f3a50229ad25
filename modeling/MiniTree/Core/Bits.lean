import Mathlib.Algebra.Group.Nat.Defs
import Mathlib.Data.Nat.Basic

/-!
# Bits of a machine word

A word as a set of bit positions: `getLsbD_setBit` and `getLsbD_clearBit` for the
`w |= 1 << i` and `w &= ~(1 << i)` idioms, and `ctz`, the count-trailing-zeros
instruction, with what it means for that set (`ctz_eq_iff`). `and_mask` is the round
down to a multiple of a power of two.
-/

namespace MiniTree.Core.Bits

open BitVec Nat List

variable {w : Nat} {x : BitVec w} {i j : Nat}

theorem getLsbD_one_shiftLeft (hi : i < w) : (1#w <<< i).getLsbD j = decide (j = i) := by
  simp only [getLsbD_shiftLeft, getLsbD_one]
  by_cases h : j = i
  · subst h
    simp
    omega
  · simp only [h, decide_false]
    by_cases h1 : j < i <;> simp [h1]
    omega

theorem getLsbD_setBit (hi : i < w) :
    (x ||| (1#w <<< i)).getLsbD j = true ↔ x.getLsbD j = true ∨ j = i := by
  simp [getLsbD_one_shiftLeft hi]

theorem getLsbD_clearBit (hi : i < w) :
    (x &&& ~~~(1#w <<< i)).getLsbD j = true ↔ x.getLsbD j = true ∧ j ≠ i := by
  simp only [getLsbD_and, getLsbD_not, getLsbD_one_shiftLeft hi, Bool.and_eq_true]
  constructor
  · rintro ⟨h1, -, h2⟩
    exact ⟨h1, by simpa using h2⟩
  · rintro ⟨h1, h2⟩
    exact ⟨h1, by simpa using lt_of_getLsbD h1, by simpa using h2⟩

/-- The lowest set bit, `w` when there is none. -/
def ctz (x : BitVec w) : Nat :=
  ((range w).find? fun i => x.getLsbD i).getD w

theorem ctz_eq_iff {p : Nat} (hx : x ≠ 0) :
    ctz x = p ↔ x.getLsbD p = true ∧ ∀ i < p, x.getLsbD i = false := by
  obtain ⟨i, hi⟩ : ∃ i, x.getLsbD i = true := by
    by_contra h
    refine hx (eq_of_getLsbD_eq fun j _ => ?_)
    have hj : ¬ x.getLsbD j = true := fun hj => h ⟨j, hj⟩
    simpa using hj
  have hw := lt_of_getLsbD hi
  have hfind : ∃ q, (range w).find? (fun i => x.getLsbD i) = some q := by
    rw [← Option.isSome_iff_exists, find?_isSome]
    exact ⟨i, mem_range.mpr hw, hi⟩
  obtain ⟨q, hq⟩ := hfind
  have hq' := find?_range_eq_some.mp hq
  have hctz : ctz x = q := by simp [ctz, hq]
  rw [hctz]
  constructor
  · rintro rfl
    exact ⟨hq'.1, fun j hj => by simpa using hq'.2.2 j hj⟩
  · rintro ⟨hp, hlow⟩
    rcases Nat.lt_trichotomy p q with hlt | heq | hgt
    · have := hq'.2.2 p hlt
      simp [hp] at this
    · exact heq.symm
    · have := hlow q hgt
      rw [hq'.1] at this
      cases this

/-- The mask `~(2 ^ k - 1)` of a word rounds down. -/
theorem and_mask {x k : Nat} (hk : k ≤ w) (hx : x < 2 ^ w) :
    x &&& (2 ^ w - 2 ^ k) = x / 2 ^ k * 2 ^ k := by
  apply eq_of_testBit_eq
  intro i
  have hm : 2 ^ w - 2 ^ k = (2 ^ (w - k) - 1) * 2 ^ k := by
    rw [Nat.sub_mul, ← pow_add, Nat.sub_add_cancel hk, one_mul]
  rw [testBit_and, hm, testBit_mul_two_pow, testBit_mul_two_pow,
    testBit_two_pow_sub_one, testBit_div_two_pow]
  by_cases hi : k ≤ i
  · rw [Nat.sub_add_cancel hi]
    by_cases hw : i < w
    · simp [hi, show i - k < w - k by omega]
    · have hlt : x < 2 ^ i :=
        lt_of_lt_of_le hx (Nat.pow_le_pow_right (by decide) (not_lt.mp hw))
      simp [testBit_lt_two_pow hlt]
  · simp [hi]

end MiniTree.Core.Bits
