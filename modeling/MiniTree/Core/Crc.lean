import Mathlib.Logic.Function.Iterate
import Mathlib.Algebra.Group.Nat.Defs

/-!
# The register of a reflected CRC

One step shifts the register right and, when a one falls out, adds the polynomial.

**Results.** `step_injective`: no step loses information when the polynomial has its top bit.
`iterate_step_shiftLeft`: a word whose low bits are clear is only shifted. `eq_of_iterate_step`:
what was in the register before `k` steps that leave a short word.
-/

namespace MiniTree.Core.Crc

open BitVec Function

variable {w : Nat}

def step (poly reg : BitVec w) : BitVec w :=
  if reg.getLsbD 0 then (reg >>> 1) ^^^ poly else reg >>> 1

variable {poly : BitVec w} {x : BitVec w}

theorem getLsbD_step (reg : BitVec w) (i : Nat) :
    (step poly reg).getLsbD i = (reg.getLsbD (i + 1) ^^ (reg.getLsbD 0 && poly.getLsbD i)) := by
  unfold step
  split
  · rename_i h
    rw [getLsbD_xor, getLsbD_ushiftRight, h, Bool.true_and, add_comm]
  · rename_i h
    rw [getLsbD_ushiftRight, eq_false_of_ne_true h, Bool.false_and, Bool.xor_false, add_comm]

theorem step_injective (hp : poly.getLsbD (w - 1) = true) : Function.Injective (step poly) := by
  intro x y h
  have hbit : ∀ i, (x.getLsbD (i + 1) ^^ (x.getLsbD 0 && poly.getLsbD i)) =
      (y.getLsbD (i + 1) ^^ (y.getLsbD 0 && poly.getLsbD i)) := by
    intro i
    rw [← getLsbD_step, ← getLsbD_step, h]
  -- the top bit tells what fell out
  have h0 : x.getLsbD 0 = y.getLsbD 0 := by
    have htop := hbit (w - 1)
    rw [getLsbD_of_ge x _ (by omega), getLsbD_of_ge y _ (by omega), hp,
      Bool.false_xor, Bool.false_xor, Bool.and_true, Bool.and_true] at htop
    exact htop
  apply eq_of_getLsbD_eq
  intro i _
  match i with
  | 0 => exact h0
  | i + 1 =>
    have hi := hbit i
    rw [h0] at hi
    exact Bool.xor_left_inj.mp hi

theorem step_shiftLeft (h : x.toNat * 2 < 2 ^ w) : step poly (x <<< 1) = x := by
  apply eq_of_getLsbD_eq
  intro i hi
  rw [getLsbD_step, getLsbD_shiftLeft, getLsbD_shiftLeft]
  by_cases hw : i + 1 < w
  · simp [hw]
  obtain rfl : w = i + 1 := by omega
  have hx : x.getLsbD i = false := by
    rw [BitVec.getLsbD, Nat.testBit_lt_two_pow]
    rw [pow_succ] at h
    omega
  rw [hx]
  simp

theorem iterate_step_shiftLeft (k : Nat) (h : x.toNat * 2 ^ k < 2 ^ w) :
    (step poly)^[k] (x <<< k) = x := by
  induction k with
  | zero => rw [shiftLeft_zero, iterate_zero_apply]
  | succ k ih =>
    rw [pow_succ, ← mul_assoc] at h
    have hk : (x <<< k).toNat = x.toNat * 2 ^ k := by
      rw [toNat_shiftLeft, Nat.shiftLeft_eq, Nat.mod_eq_of_lt (by omega)]
    rw [iterate_succ_apply, shiftLeft_add, step_shiftLeft (by rw [hk]; exact h)]
    exact ih (by omega)

theorem eq_of_iterate_step (hp : poly.getLsbD (w - 1) = true) {x y : BitVec w} {k : Nat}
    (hy : y.toNat * 2 ^ k < 2 ^ w) (h : (step poly)^[k] x = y) : x = y <<< k :=
  (step_injective hp).iterate k (h.trans (iterate_step_shiftLeft k hy).symm)

end MiniTree.Core.Crc
