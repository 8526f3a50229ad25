import MiniTree.Core.CrcBits
import MiniTree.Ota.Crc
import Mathlib.Data.Nat.Bitwise

/-!
# The CRC engines (`algorithm/src/crc.c`)

The table-driven engine (`CRC_MODE` 1) with its static table, and the CRC it is to compute: the bits
of the message enter a register of `width` bits one by one. The engines hold the register in 32 bits,
reversed where the input is reflected.

**Results.** `engineByte_eq` and `tableByte_eq`: a byte of either engine is the byte's bits entering
the register.
-/

namespace MiniTree.Ota.Crc

open MiniTree.Core List BitVec
open Crc (shiftIn word step bit)

/-! ## The CRC of a message -/

/-- The parameters of a CRC. -/
structure Model where
  width : Nat
  width_pos : 0 < width
  width_le : width ≤ 32
  poly : BitVec 32
  init : BitVec 32
  xorOut : BitVec 32
  refin : Bool
  refout : Bool

/-- The bits of a byte in the order they enter. -/
def bitsOf (refin : Bool) (byte : UInt8) : List Bool :=
  (List.range 8).map fun i => byte.toBitVec.getLsbD (if refin then i else 7 - i)

def byteIn {w : Nat} (refin : Bool) (poly reg : BitVec w) (byte : UInt8) : BitVec w :=
  (bitsOf refin byte).foldl (shiftIn poly) reg

namespace Model

def register (m : Model) (data : Bytes) : BitVec m.width :=
  data.foldl (byteIn m.refin (m.poly.setWidth m.width)) (m.init.setWidth m.width)

def crc (m : Model) (data : Bytes) : BitVec m.width :=
  (if m.refout then (m.register data).reverse else m.register data) ^^^ m.xorOut.setWidth m.width

end Model

/-- The check value of CRC-32. -/
example : (⟨32, by decide, by decide, 0x04C11DB7, 0xFFFFFFFF, 0xFFFFFFFF, true, true⟩ : Model).crc
    [0x31, 0x32, 0x33, 0x34, 0x35, 0x36, 0x37, 0x38, 0x39] = 0xCBF43926 := by decide +kernel

/-! ## The table engine -/

/-- mirrors crc.c:123-157 (`crc_table_build`), one entry -/
def tableEntry (poly : BitVec 32) (width : Nat) (refin : Bool) (i : BitVec 32) : BitVec 32 :=
  if refin then (shiftRight poly 0xFFFFFFFF)^[8] i &&& maskOf width
  else (shiftLeft poly (maskOf width) (1 <<< (width - 1)))^[8] (i <<< (width - 8)) &&& maskOf width

/-- One byte of `crc_table_engine`. The cached table is rebuilt when one of its parameters
changes, so that it is always the table of these parameters. -/
def tableByte (refin : Bool) (poly : BitVec 32) (width : Nat) (mask reg : BitVec 32)
    (byte : UInt8) : BitVec 32 :=
  if refin then (reg >>> 8) ^^^ tableEntry poly width refin ((reg ^^^ wordOf byte) &&& 0xFF)
  else ((reg <<< 8) &&& mask) ^^^
    tableEntry poly width refin (((reg >>> (width - 8)) ^^^ wordOf byte) &&& 0xFF)

/-- mirrors crc.c:170-206 (`crc_table_engine`) -/
def tableEngine (data : Bytes) (reg : BitVec 32) (refin : Bool) (poly : BitVec 32) (width : Nat)
    (mask : BitVec 32) : BitVec 32 :=
  if width < 8 then bitwiseEngine data reg refin poly width mask
  else data.foldl (tableByte refin poly width mask) reg

/-! ## One byte -/

section

variable {w : Nat} {poly : BitVec w}

theorem length_bitsOf (refin : Bool) (byte : UInt8) : (bitsOf refin byte).length = 8 := by
  unfold bitsOf
  rw [length_map, length_range]

theorem getD_bitsOf (refin : Bool) (byte : UInt8) (i : Nat) : (bitsOf refin byte).getD i false =
    (decide (i < 8) && byte.toBitVec.getLsbD (if refin then i else 7 - i)) := by
  unfold bitsOf
  by_cases hi : i < 8
  · rw [getD_eq_getElem?_getD, List.getElem?_map, List.getElem?_range hi, decide_eq_true hi,
      Bool.true_and]
    rfl
  · rw [getD_eq_getElem?_getD, List.getElem?_eq_none (by simp; omega), decide_eq_false hi]
    rfl

theorem lt_two_pow (h8 : 8 ≤ w) {i : Nat} (hi : i < 256) : i < 2 ^ w :=
  hi.trans_le (show 2 ^ 8 ≤ 2 ^ w from Nat.pow_le_pow_right (by decide) h8)

theorem toNat_word_low (h8 : 8 ≤ w) (byte : UInt8) :
    (word (bitsOf true byte) : BitVec w).toNat = byte.toNat := by
  apply Nat.eq_of_testBit_eq
  intro i
  have h := Crc.getLsbD_word (w := w) (bitsOf true byte) i
  rw [getD_bitsOf, if_pos rfl] at h
  refine h.trans ?_
  by_cases hi : i < 8
  · rw [decide_eq_true (show i < w by omega), decide_eq_true hi]
    rfl
  · rw [decide_eq_false hi, Bool.false_and, Bool.and_false]
    exact (getLsbD_of_ge byte.toBitVec _ (by omega)).symm

theorem reverse_word_high (h8 : 8 ≤ w) (byte : UInt8) :
    (word (bitsOf false byte) : BitVec w).reverse = BitVec.ofNat w byte.toNat <<< (w - 8) := by
  apply eq_of_getLsbD_eq
  intro i hi
  rw [Crc.getLsbD_reverse_of_lt _ hi, Crc.getLsbD_word, getD_bitsOf, if_neg Bool.false_ne_true,
    getLsbD_shiftLeft, getLsbD_ofNat, decide_eq_true hi,
    decide_eq_true (show w - 1 - i < w by omega), Bool.true_and, Bool.true_and]
  by_cases hlow : i < w - 8
  · rw [decide_eq_true hlow, decide_eq_false (show ¬ w - 1 - i < 8 by omega)]
    rfl
  · rw [decide_eq_false hlow, decide_eq_true (show w - 1 - i < 8 by omega),
      decide_eq_true (show i - (w - 8) < w by omega), show 7 - (w - 1 - i) = i - (w - 8) by omega]
    rfl

theorem reverse_byteIn_foldl (reg : BitVec w) (byte : UInt8) : (byteIn true poly reg byte).reverse =
    (bitsOf true byte).foldl (fun reg b => step poly.reverse (reg ^^^ bit b)) reg.reverse :=
  Crc.reverse_foldl_shiftIn _ _

/-- The eight bits of a byte at once. -/
theorem reverse_byteIn (h8 : 8 ≤ w) (reg : BitVec w) (byte : UInt8) : (byteIn true poly reg byte).reverse =
    (step poly.reverse)^[8] (reg.reverse ^^^ word (bitsOf true byte)) := by
  have hlen := length_bitsOf true byte
  have hword := @Crc.iterate_step_word w poly.reverse (bitsOf true byte) (hlen ▸ h8) reg.reverse
  rw [hlen] at hword
  rw [hword, reverse_byteIn_foldl]

theorem byteIn_left (h8 : 8 ≤ w) (reg : BitVec w) (byte : UInt8) : byteIn false poly reg byte =
    (shiftIn poly · false)^[8] (reg ^^^ BitVec.ofNat w byte.toNat <<< (w - 8)) := by
  have hlen := length_bitsOf false byte
  have hword := @Crc.iterate_shiftIn_word w poly (bitsOf false byte) (hlen ▸ h8) reg
  rw [hlen, reverse_word_high h8] at hword
  exact hword.symm

/-- A byte of a register that shifts to the right, from the table's entry. -/
theorem step_byte (h8 : 8 ≤ w) (reg : BitVec w) (byte : UInt8) :
    (step poly)^[8] (reg ^^^ word (bitsOf true byte)) =
      (reg >>> 8) ^^^ (step poly)^[8] (BitVec.ofNat w ((reg.toNat ^^^ byte.toNat) % 256)) := by
  have hshift : (reg ^^^ word (bitsOf true byte)) >>> 8 = reg >>> 8 := by
    apply eq_of_toNat_eq
    rw [toNat_ushiftRight, toNat_ushiftRight, toNat_xor, toNat_word_low h8,
      Nat.shiftRight_xor_distrib, Nat.shiftRight_eq_div_pow byte.toNat,
      Nat.div_eq_of_lt (UInt8.toNat_lt byte), Nat.xor_zero]
  have hlow : ∀ x : BitVec w, x ^^^ (x >>> 8 <<< 8) = BitVec.ofNat w (x.toNat % 256) := by
    intro x
    apply eq_of_getLsbD_eq
    intro i hi
    rw [getLsbD_xor, getLsbD_shiftLeft, getLsbD_ushiftRight,
      getLsbD_ofNat, show (256 : Nat) = 2 ^ 8 from rfl, Nat.testBit_mod_two_pow, decide_eq_true hi]
    by_cases hk : i < 8
    · simp [hk, testBit_toNat]
    · simp [hk, show 8 + (i - 8) = i by omega]
  rw [Crc.iterate_step_split, hshift, ← hshift, hlow, toNat_xor, toNat_word_low h8, hshift]

theorem high_byte (h8 : 8 ≤ w) (reg : BitVec w) (byte : UInt8) :
    (reg ^^^ BitVec.ofNat w byte.toNat <<< (w - 8)) >>> (w - 8) =
      BitVec.ofNat w (((reg.toNat >>> (w - 8)) ^^^ byte.toNat) % 256) := by
  apply eq_of_getLsbD_eq
  intro i hi
  rw [getLsbD_ushiftRight, getLsbD_xor, getLsbD_shiftLeft, getLsbD_ofNat, getLsbD_ofNat,
    show (256 : Nat) = 2 ^ 8 from rfl, Nat.testBit_mod_two_pow, Nat.testBit_xor,
    Nat.testBit_shiftRight, testBit_toNat, Nat.add_sub_cancel_left, decide_eq_true hi]
  by_cases h : i < 8
  · simp [h, show w - 8 + i < w by omega]
  · simp [h, show ¬ w - 8 + i < w by omega, getLsbD_of_ge reg _ (show w ≤ w - 8 + i by omega)]

/-- A byte of a register that shifts to the left, from the table's entry. -/
theorem shiftIn_byte (h8 : 8 ≤ w) (reg : BitVec w) (byte : UInt8) :
    byteIn false poly reg byte = (reg <<< 8) ^^^ (shiftIn poly · false)^[8]
        (BitVec.ofNat w (((reg.toNat >>> (w - 8)) ^^^ byte.toNat) % 256) <<< (w - 8)) := by
  have hsplit : ∀ x : BitVec w, x ^^^ (x <<< 8 >>> 8) = x >>> (w - 8) <<< (w - 8) := by
    intro x
    apply eq_of_getLsbD_eq
    intro i hi
    rw [getLsbD_xor, getLsbD_ushiftRight, getLsbD_shiftLeft,
      getLsbD_shiftLeft, getLsbD_ushiftRight, decide_eq_true hi]
    by_cases hk : i < w - 8
    · simp [hk, show 8 + i < w by omega]
    · simp [hk, show ¬ 8 + i < w by omega, show w - 8 + (i - (w - 8)) = i by omega]
  have hzero : (BitVec.ofNat w byte.toNat <<< (w - 8)) <<< 8 = 0 := by
    apply eq_of_toNat_eq
    rw [← shiftLeft_add, Nat.sub_add_cancel h8, toNat_shiftLeft, Nat.shiftLeft_eq, Nat.mul_mod_left]
    rfl
  rw [byteIn_left h8, Crc.iterate_shiftIn_split, hsplit, high_byte h8, shiftLeft_xor_distrib, hzero]
  simp

end

/-! ## The engines on words -/

section

variable {w : Nat} {poly reg : BitVec w}

theorem getLsbD_maskOf : ∀ w ≤ 32, ∀ i < 32, (maskOf w).getLsbD i = decide (i < w) := by
  decide +kernel

section
variable (hw : w ≤ 32)
include hw

theorem and_maskOf (x : BitVec 32) : x &&& maskOf w = (x.setWidth w).setWidth 32 := by
  apply eq_of_getLsbD_eq
  intro i hi
  rw [getLsbD_and, getLsbD_maskOf w hw i hi, getLsbD_setWidth, getLsbD_setWidth,
    decide_eq_true hi, Bool.true_and, Bool.and_comm]

theorem setWidth_back (x : BitVec w) : (x.setWidth 32).setWidth w = x := by
  rw [setWidth_setWidth_of_le _ hw, setWidth_eq]

theorem getLsbD_ext (x : BitVec w) (i : Nat) : (x.setWidth 32).getLsbD i = x.getLsbD i := by
  rw [getLsbD_setWidth]
  by_cases hi : i < 32
  · rw [decide_eq_true hi, Bool.true_and]
  · rw [getLsbD_of_ge x i (by omega), Bool.and_false]

theorem setWidth_shiftLeft_back (x : BitVec w) (k : Nat) :
    (x.setWidth 32 <<< k).setWidth w = x <<< k := by
  apply eq_of_getLsbD_eq
  intro i hi
  rw [getLsbD_setWidth, getLsbD_shiftLeft, getLsbD_ext hw, getLsbD_shiftLeft,
    decide_eq_true hi, decide_eq_true (show i < 32 by omega), Bool.true_and]

theorem step_ext : step (poly.setWidth 32) (reg.setWidth 32) = (step poly reg).setWidth 32 := by
  apply eq_of_getLsbD_eq
  intro i _
  rw [Crc.getLsbD_step, getLsbD_ext hw, getLsbD_ext hw, getLsbD_ext hw, getLsbD_ext hw,
    Crc.getLsbD_step]

theorem shiftRight_ext : shiftRight (poly.setWidth 32) (maskOf w) (reg.setWidth 32) =
    (step poly reg).setWidth 32 := by
  have hround : shiftRight (poly.setWidth 32) (maskOf w) (reg.setWidth 32) =
      step (poly.setWidth 32) (reg.setWidth 32) &&& maskOf w :=
    congrArg (· &&& maskOf w) (if_congr (lowBit_ne_zero _) rfl rfl)
  rw [hround, step_ext hw, and_maskOf hw, setWidth_back hw]

end

theorem and_top_ne_zero (reg : BitVec w) : (reg.toNat &&& 1 <<< (w - 1) ≠ 0) ↔ reg.msb = true := by
  rw [Nat.one_shiftLeft, msb_eq_getLsbD_last, Nat.and_comm, Nat.two_pow_and, testBit_toNat]
  cases reg.getLsbD (w - 1) <;> simp

theorem toNat_topBit : ∀ w ≤ 32, 0 < w →
    ((1 <<< (w - 1) : Nat) : BitVec 32).toNat = 1 <<< (w - 1) := by decide

theorem topBit_ne_zero (h0 : 0 < w) (hw : w ≤ 32) (reg : BitVec w) :
    (reg.setWidth 32 &&& 1 <<< (w - 1) ≠ 0) ↔ reg.msb = true := by
  have h : (reg.setWidth 32 &&& ((1 <<< (w - 1) : Nat) : BitVec 32)).toNat =
      reg.toNat &&& 1 <<< (w - 1) := by rw [toNat_and, toNat_setWidth_of_le hw, toNat_topBit w hw h0]
  rw [← and_top_ne_zero, ← h]
  exact toNat_ne_iff_ne.symm

theorem shiftLeft_ext (h0 : 0 < w) (hw : w ≤ 32) :
    shiftLeft (poly.setWidth 32) (maskOf w) (1 <<< (w - 1)) (reg.setWidth 32) =
      (shiftIn poly reg false).setWidth 32 := by
  unfold shiftLeft shiftIn
  rw [and_maskOf hw, if_congr (topBit_ne_zero h0 hw reg) rfl rfl, Bool.xor_false]
  split
  · rw [setWidth_xor, setWidth_shiftLeft_back hw, setWidth_back hw]
  · rw [setWidth_shiftLeft_back hw]

theorem semiconj_shiftLeft (h0 : 0 < w) (hw : w ≤ 32) :
    Function.Semiconj (fun r : BitVec w => r.setWidth 32) (shiftIn poly · false)
      (shiftLeft (poly.setWidth 32) (maskOf w) (1 <<< (w - 1))) := fun _ => (shiftLeft_ext h0 hw).symm

/-! ## The C engines -/

/-- The register as an engine holds it. -/
def held (refin : Bool) (reg : BitVec w) : BitVec w := if refin then reg.reverse else reg

theorem wordOf_low (h8 : 8 ≤ w) (hw : w ≤ 32) (byte : UInt8) :
    wordOf byte = (word (bitsOf true byte) : BitVec w).setWidth 32 := by
  apply eq_of_toNat_eq
  rw [toNat_setWidth_of_le hw, toNat_word_low h8]
  exact toNat_setWidth_of_le (by decide)

theorem ofNat_high (h8 : 8 ≤ w) (hw : w ≤ 32) {i : Nat} (hi : i < 256) :
    BitVec.ofNat 32 i <<< (w - 8) = (BitVec.ofNat w i <<< (w - 8)).setWidth 32 := by
  apply eq_of_getLsbD_eq
  intro j hj
  rw [getLsbD_ext hw, getLsbD_shiftLeft, getLsbD_shiftLeft, getLsbD_ofNat,
    getLsbD_ofNat, decide_eq_true hj]
  by_cases hjw : j < w
  · rw [decide_eq_true hjw, decide_eq_true (show j - (w - 8) < 32 by omega),
      decide_eq_true (show j - (w - 8) < w by omega)]
  · have hbit : i.testBit (j - (w - 8)) = false := Nat.testBit_lt_two_pow (lt_two_pow (by omega) hi)
    rw [hbit, decide_eq_false hjw]
    simp

theorem wordOf_high (h8 : 8 ≤ w) (hw : w ≤ 32) (byte : UInt8) : wordOf byte <<< (w - 8) =
    (BitVec.ofNat w byte.toNat <<< (w - 8)).setWidth 32 := by
  have hbyte : wordOf byte = BitVec.ofNat 32 byte.toNat := by
    apply eq_of_toNat_eq
    exact toNat_setWidth ..
  rw [hbyte, ofNat_high h8 hw (UInt8.toNat_lt byte)]

theorem wordOf_bit (h0 : 0 < w) (byte : UInt8) (i : Nat) :
    (wordOf byte >>> i) &&& 1 = (bit (byte.toBitVec.getLsbD i) : BitVec w).setWidth 32 := by
  have h : (wordOf byte >>> i) &&& 1 =
      BitVec.setWidth 32 (BitVec.ofBool ((wordOf byte >>> i).getLsbD 0)) :=
    and_one_eq_setWidth_ofBool_getLsbD
  have hbit : (wordOf byte >>> i).getLsbD 0 = byte.toBitVec.getLsbD i := by
    rw [getLsbD_ushiftRight, add_zero]
    exact getLsbD_ext (by decide) byte.toBitVec i
  rw [h, hbit]
  apply eq_of_getLsbD_eq
  intro j hj
  unfold bit
  rw [getLsbD_setWidth, getLsbD_setWidth, getLsbD_setWidth]
  cases j with
  | zero => rw [decide_eq_true h0, Bool.true_and]
  | succ j => simp

theorem bit_top (h0 : 0 < w) (hw : w ≤ 32) (b : Bool) :
    (bit b : BitVec w).setWidth 32 <<< (w - 1) = ((bit b : BitVec w) <<< (w - 1)).setWidth 32 := by
  apply eq_of_getLsbD_eq
  intro i hi
  rw [getLsbD_ext hw, getLsbD_shiftLeft, getLsbD_shiftLeft, getLsbD_ext hw,
    Crc.getLsbD_bit, decide_eq_true hi]
  by_cases hiw : i < w
  · rw [decide_eq_true hiw]
  · rw [decide_eq_false hiw, decide_eq_false (show i - (w - 1) ≠ 0 by omega)]
    simp

theorem engineByte_eq (h0 : 0 < w) (hw : w ≤ 32) (refin : Bool) (byte : UInt8) :
    engineByte refin ((held refin poly).setWidth 32) w (maskOf w) ((held refin reg).setWidth 32) byte =
      (held refin (byteIn refin poly reg byte)).setWidth 32 := by
  have hright : ∀ poly : BitVec w, Function.Semiconj (fun r : BitVec w => r.setWidth 32)
      (step poly) (shiftRight (poly.setWidth 32) (maskOf w)) :=
    fun poly r => (shiftRight_ext hw).symm
  unfold engineByte held
  by_cases h8 : 8 ≤ w
  · cases refin with
    | true =>
      rw [if_pos rfl, if_pos h8, wordOf_low h8 hw, ← setWidth_xor]
      simp only [if_true]
      rw [reverse_byteIn h8]
      exact (((hright poly.reverse).iterate_right 8).eq _).symm
    | false =>
      simp only [Bool.false_eq_true, if_false]
      rw [if_pos h8, wordOf_high h8 hw, ← setWidth_xor, byteIn_left h8]
      exact (((semiconj_shiftLeft h0 hw).iterate_right 8).eq _).symm
  · cases refin with
    | true =>
      rw [if_pos rfl, if_neg h8]
      simp only [if_true]
      rw [reverse_byteIn_foldl, bitsOf, foldl_map]
      refine foldl_hom (fun r : BitVec w => r.setWidth 32) fun x i => ?_
      rw [wordOf_bit h0, ← setWidth_xor]
      exact shiftRight_ext hw
    | false =>
      simp only [Bool.false_eq_true, if_false]
      rw [if_neg h8]
      unfold byteIn bitsOf
      rw [foldl_map]
      refine foldl_hom (fun r : BitVec w => r.setWidth 32) fun x i => ?_
      rw [wordOf_bit h0, bit_top h0 hw, ← setWidth_xor, ← Crc.shiftIn_bit]
      exact shiftLeft_ext h0 hw

theorem tableEntry_right (hw : w ≤ 32) (x : BitVec w) :
    tableEntry (poly.setWidth 32) w true (x.setWidth 32) = ((step poly)^[8] x).setWidth 32 := by
  have hsemi : Function.Semiconj (fun r : BitVec w => r.setWidth 32) (step poly)
      (shiftRight (poly.setWidth 32) 0xFFFFFFFF) := fun r => by
    rw [shiftRight_eq, step_ext hw]
  unfold tableEntry
  rw [if_pos rfl, ← (hsemi.iterate_right 8).eq, and_maskOf hw, setWidth_back hw]

theorem tableEntry_left (h8 : 8 ≤ w) (hw : w ≤ 32) {i : Nat} (hi : i < 256) :
    tableEntry (poly.setWidth 32) w false (BitVec.ofNat 32 i) =
      ((shiftIn poly · false)^[8] (BitVec.ofNat w i <<< (w - 8))).setWidth 32 := by
  unfold tableEntry
  rw [if_neg Bool.false_ne_true, ofNat_high h8 hw hi,
    ← ((semiconj_shiftLeft (by omega) hw).iterate_right 8).eq, and_maskOf hw, setWidth_back hw]

theorem toNat_wordOf_eq (byte : UInt8) : (wordOf byte).toNat = byte.toNat :=
  toNat_setWidth_of_le (by decide)

theorem and_low_byte (x : BitVec 32) : x &&& 0xFF = BitVec.ofNat 32 (x.toNat % 256) := by
  have h : x.toNat &&& 0xFF = x.toNat % 256 := Nat.and_two_pow_sub_one_eq_mod _ 8
  apply eq_of_toNat_eq
  rw [toNat_and, toNat_ofNat, Nat.mod_eq_of_lt (by omega)]
  exact h

theorem tableByte_eq (h8 : 8 ≤ w) (hw : w ≤ 32) (refin : Bool) (byte : UInt8) :
    tableByte refin ((held refin poly).setWidth 32) w (maskOf w) ((held refin reg).setWidth 32) byte =
      (held refin (byteIn refin poly reg byte)).setWidth 32 := by
  unfold tableByte held
  cases refin with
  | true =>
    have hidx : (reg.reverse.setWidth 32 ^^^ wordOf byte) &&& 0xFF =
        (BitVec.ofNat w ((reg.reverse.toNat ^^^ byte.toNat) % 256)).setWidth 32 := by
      rw [and_low_byte, toNat_xor, toNat_setWidth_of_le hw, toNat_wordOf_eq]
      apply eq_of_toNat_eq
      rw [toNat_setWidth_of_le hw, toNat_ofNat, toNat_ofNat,
        Nat.mod_eq_of_lt (lt_two_pow h8 (Nat.mod_lt _ (by decide))),
        Nat.mod_eq_of_lt (lt_two_pow (by decide) (Nat.mod_lt _ (by decide)))]
    simp only [if_true]
    rw [hidx, tableEntry_right hw, ← setWidth_ushiftRight hw, ← setWidth_xor, reverse_byteIn h8,
      step_byte h8]
  | false =>
    have hidx : ((reg.setWidth 32 >>> (w - 8)) ^^^ wordOf byte) &&& 0xFF =
        BitVec.ofNat 32 (((reg.toNat >>> (w - 8)) ^^^ byte.toNat) % 256) := by
      rw [and_low_byte, toNat_xor, toNat_ushiftRight, toNat_setWidth_of_le hw, toNat_wordOf_eq]
    simp only [Bool.false_eq_true, if_false]
    rw [hidx, tableEntry_left h8 hw (Nat.mod_lt _ (by decide)), and_maskOf hw,
      setWidth_shiftLeft_back hw, ← setWidth_xor, shiftIn_byte h8]

end

end MiniTree.Ota.Crc
