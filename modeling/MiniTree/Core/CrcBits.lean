import MiniTree.Core.Crc

/-!
# A CRC bit by bit

The register of `w` bits shifts to the left; each bit of the message is added to what falls out, and
a one adds the polynomial. Engines that shift to the right hold the same register reversed, and
engines that take several bits at once add them to the register first.

**Results.** `reverse_shiftIn`: the register reversed is that of `step`. `iterate_step_word` and
`iterate_shiftIn_word`: bits added to the register at once are bits shifted in one by one.
`iterate_step_split` and `iterate_shiftIn_split`: `k` steps are those of the `k` bits that fall out,
added to what is left of the register; this is what a table holds.
-/

namespace MiniTree.Core.Crc

open BitVec Nat List Function

variable {w : Nat}

/-- One bit enters the register. -/
def shiftIn (poly reg : BitVec w) (b : Bool) : BitVec w :=
  if reg.msb ^^ b then (reg <<< 1) ^^^ poly else reg <<< 1

def bit (b : Bool) : BitVec w := (BitVec.ofBool b).setWidth w

def word : List Bool → BitVec w
  | [] => 0
  | b :: bits => (word bits <<< 1) ^^^ bit b

/-! ## Bits -/

theorem getLsbD_bit (b : Bool) (i : Nat) :
    (bit b : BitVec w).getLsbD i = (decide (i < w) && decide (i = 0) && b) := by
  unfold bit
  rw [getLsbD_setWidth, getLsbD_ofBool, Bool.and_assoc]

theorem getLsbD_reverse_of_lt (x : BitVec w) {i : Nat} (hi : i < w) :
    x.reverse.getLsbD i = x.getLsbD (w - 1 - i) := by
  rw [getLsbD_reverse, BitVec.getMsbD, decide_eq_true hi, Bool.true_and]

theorem reverse_xor (x y : BitVec w) : (x ^^^ y).reverse = x.reverse ^^^ y.reverse := by
  apply eq_of_getLsbD_eq
  intro i hi
  rw [getLsbD_xor, getLsbD_reverse_of_lt _ hi, getLsbD_reverse_of_lt _ hi,
    getLsbD_reverse_of_lt _ hi, getLsbD_xor]

theorem reverse_shiftLeft (x : BitVec w) (k : Nat) : (x <<< k).reverse = x.reverse >>> k := by
  apply eq_of_getLsbD_eq
  intro i hi
  rw [getLsbD_reverse_of_lt _ hi, getLsbD_shiftLeft, getLsbD_ushiftRight]
  by_cases hk : k + i < w
  · rw [getLsbD_reverse_of_lt _ hk, decide_eq_true (by omega), decide_eq_false (by omega),
      show w - 1 - i - k = w - 1 - (k + i) by omega]
    rfl
  · rw [getLsbD_of_ge x.reverse _ (by omega), decide_eq_true (show w - 1 - i < k by omega)]
    simp

theorem reverse_ushiftRight (x : BitVec w) (k : Nat) : (x >>> k).reverse = x.reverse <<< k := by
  rw [← reverse_reverse_eq (x := x.reverse <<< k), reverse_shiftLeft, reverse_reverse_eq]

theorem toNat_bit_lt (b : Bool) : (bit b : BitVec w).toNat < 2 := by
  unfold bit
  rw [toNat_setWidth]
  exact Nat.lt_of_le_of_lt (Nat.mod_le _ _) (BitVec.ofBool b).isLt

theorem toNat_word_lt (bits : List Bool) : (word bits : BitVec w).toNat < 2 ^ bits.length := by
  induction bits with
  | nil =>
    unfold word
    exact Nat.lt_of_le_of_lt (Nat.le_of_eq toNat_zero) Nat.zero_lt_one
  | cons b bits ih =>
    unfold word
    rw [toNat_xor, length_cons]
    refine Nat.xor_lt_two_pow ?_ (Nat.lt_of_lt_of_le (toNat_bit_lt b) ?_)
    · rw [toNat_shiftLeft, Nat.shiftLeft_eq]
      refine Nat.lt_of_le_of_lt (Nat.mod_le _ _) ?_
      rw [Nat.pow_succ]
      omega
    · exact Nat.le_self_pow (Nat.succ_ne_zero _) 2

theorem getLsbD_word (bits : List Bool) (i : Nat) :
    (word bits : BitVec w).getLsbD i = (decide (i < w) && bits.getD i false) := by
  induction bits generalizing i with
  | nil => simp [word]
  | cons b bits ih =>
    unfold word
    rw [getLsbD_xor, getLsbD_shiftLeft, getLsbD_bit, ih]
    cases i with
    | zero => simp
    | succ i => by_cases hi : i + 1 < w <;> simp [hi, lt_of_succ_lt]

/-! ## Steps -/

variable {poly : BitVec w}

theorem step_xor (x y : BitVec w) : step poly (x ^^^ y) = step poly x ^^^ step poly y := by
  apply eq_of_getLsbD_eq
  intro i _
  simp only [getLsbD_step, getLsbD_xor]
  cases x.getLsbD 0 <;> cases y.getLsbD 0 <;> cases poly.getLsbD i <;> simp

section
variable (k : Nat) (bits : List Bool) (reg : BitVec w)

theorem iterate_step_xor (x y : BitVec w) :
    (step poly)^[k] (x ^^^ y) = (step poly)^[k] x ^^^ (step poly)^[k] y := by
  induction k generalizing x y with
  | zero => rfl
  | succ k ih => rw [iterate_succ_apply, iterate_succ_apply, iterate_succ_apply, step_xor, ih]

theorem reverse_shiftIn (b : Bool) :
    (shiftIn poly reg b).reverse = step poly.reverse (reg.reverse ^^^ bit b) := by
  by_cases hw : w = 0
  · subst hw
    exact Subsingleton.elim _ _
  have hmsb : (reg.reverse ^^^ bit b).getLsbD 0 = (reg.msb ^^ b) := by
    rw [getLsbD_xor, getLsbD_reverse_of_lt _ (by omega), getLsbD_bit, Nat.sub_zero,
      msb_eq_getLsbD_last, decide_eq_true (by omega)]
    rfl
  have hshift : (reg.reverse ^^^ bit b) >>> 1 = reg.reverse >>> 1 := by
    apply eq_of_getLsbD_eq
    intro i _
    rw [getLsbD_ushiftRight, getLsbD_xor, getLsbD_bit, getLsbD_ushiftRight,
      decide_eq_false (show 1 + i ≠ 0 by omega)]
    simp
  unfold shiftIn step
  rw [hmsb, hshift]
  split
  · rw [reverse_xor, reverse_shiftLeft]
  · rw [reverse_shiftLeft]

/-- A step to the left is one to the right, reversed. -/
theorem shiftIn_false : shiftIn poly reg false = (step poly.reverse reg.reverse).reverse := by
  have h : (shiftIn poly reg false).reverse = _ := reverse_shiftIn reg false
  have h0 : (bit false : BitVec w) = 0 := by
    apply eq_of_getLsbD_eq
    intro i _
    simp [getLsbD_bit]
  rw [h0] at h
  rw [← reverse_reverse_eq (x := shiftIn poly reg false), h]
  exact congrArg (fun x => (step poly.reverse x).reverse) xor_zero

/-- A bit that enters is a bit at the top of the register. -/
theorem shiftIn_bit (b : Bool) :
    shiftIn poly (reg ^^^ bit b <<< (w - 1)) false = shiftIn poly reg b := by
  have hbit : (bit b <<< (w - 1) : BitVec w).reverse = bit b := by
    apply eq_of_getLsbD_eq
    intro i hi
    rw [reverse_shiftLeft, getLsbD_ushiftRight, getLsbD_reverse, BitVec.getMsbD,
      getLsbD_bit, getLsbD_bit]
    by_cases h0 : i = 0
    · subst h0
      simp [show w - 1 < w by omega, hi]
    · simp [show ¬ w - 1 + i < w by omega, h0]
  rw [shiftIn_false, reverse_xor, hbit, ← reverse_shiftIn, reverse_reverse_eq]

theorem iterate_shiftIn_false :
    (shiftIn poly · false)^[k] reg = ((step poly.reverse)^[k] reg.reverse).reverse := by
  have h : Function.Semiconj BitVec.reverse (step poly.reverse) (shiftIn poly · false) := by
    intro x
    dsimp only
    rw [shiftIn_false, reverse_reverse_eq]
  rw [(h.iterate_right k).eq, reverse_reverse_eq]

theorem iterate_step_word (hb : bits.length ≤ w) (reg : BitVec w) :
    (step poly)^[bits.length] (reg ^^^ word bits) =
      bits.foldl (fun reg b => step poly (reg ^^^ bit b)) reg := by
  induction bits generalizing reg with
  | nil => exact xor_zero
  | cons b bits ih =>
    rw [length_cons] at hb
    have hlt : (word bits : BitVec w).toNat * 2 < 2 ^ w :=
      calc (word bits : BitVec w).toNat * 2 < 2 ^ (bits.length + 1) := by
            rw [pow_succ]
            exact Nat.mul_lt_mul_of_pos_right (toNat_word_lt bits) (by decide)
        _ ≤ 2 ^ w := Nat.pow_le_pow_right (by decide) hb
    rw [length_cons, iterate_succ_apply, foldl_cons, word,
      BitVec.xor_comm (word bits <<< 1), ← xor_assoc, step_xor, step_shiftLeft hlt]
    exact ih (by omega) _

theorem reverse_foldl_shiftIn : (bits.foldl (shiftIn poly) reg).reverse =
      bits.foldl (fun reg b => step poly.reverse (reg ^^^ bit b)) reg.reverse :=
  (foldl_hom BitVec.reverse fun x b => (reverse_shiftIn x b).symm).symm

theorem iterate_shiftIn_word (hb : bits.length ≤ w) (reg : BitVec w) :
    (shiftIn poly · false)^[bits.length] (reg ^^^ (word bits).reverse) =
      bits.foldl (shiftIn poly) reg := by
  rw [iterate_shiftIn_false, reverse_xor, reverse_reverse_eq, iterate_step_word bits hb,
    ← reverse_foldl_shiftIn, reverse_reverse_eq]

/-- `k` steps, those of the low bits apart. -/
theorem iterate_step_split (x : BitVec w) :
    (step poly)^[k] x = (x >>> k) ^^^ (step poly)^[k] (x ^^^ (x >>> k <<< k)) := by
  have hlt : (x >>> k).toNat * 2 ^ k < 2 ^ w := by
    rw [toNat_ushiftRight, shiftRight_eq_div_pow]
    exact Nat.lt_of_le_of_lt (Nat.div_mul_le_self _ _) x.isLt
  rw [iterate_step_xor, iterate_step_shiftLeft k hlt, BitVec.xor_comm ((step poly)^[k] x),
    ← xor_assoc, BitVec.xor_self, BitVec.zero_xor]

theorem iterate_shiftIn_split (x : BitVec w) : (shiftIn poly · false)^[k] x =
      (x <<< k) ^^^ (shiftIn poly · false)^[k] (x ^^^ (x <<< k >>> k)) := by
  rw [iterate_shiftIn_false, iterate_shiftIn_false, iterate_step_split, reverse_xor,
    reverse_ushiftRight, reverse_reverse_eq, reverse_xor, reverse_ushiftRight, reverse_shiftLeft]

end

end MiniTree.Core.Crc
