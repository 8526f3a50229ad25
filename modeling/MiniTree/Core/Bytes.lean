import Mathlib.Data.UInt

/-!
# Byte strings

Slices of a byte string and little-endian integers.
-/

namespace MiniTree.Core

open BitVec List

abbrev Bytes := List UInt8

section
variable (x : UInt16) (buf : Bytes) (i : Nat)

/-- The `n` bytes from `off` on. -/
def slice (off n : Nat) : Bytes := (buf.drop off).take n

def byteAt : UInt8 := buf.getD i 0

/-- A 32-bit integer from four bytes, the lowest first. -/
def le32 (a b c d : UInt8) : UInt32 :=
  a.toUInt32 ||| (b.toUInt32 <<< 8) ||| (c.toUInt32 <<< 16) ||| (d.toUInt32 <<< 24)

def le32At : UInt32 :=
  le32 (byteAt buf i) (byteAt buf (i + 1)) (byteAt buf (i + 2)) (byteAt buf (i + 3))

/-- The four bytes of a 32-bit integer, the lowest first. -/
def toLe32 (x : UInt32) : Bytes :=
  [x.toUInt8, (x >>> 8).toUInt8, (x >>> 16).toUInt8, (x >>> 24).toUInt8]

@[simp] theorem toLe32_length (x : UInt32) : (toLe32 x).length = 4 := rfl

theorem le32_toLe32 (x : UInt32) :
    le32 x.toUInt8 (x >>> 8).toUInt8 (x >>> 16).toUInt8 (x >>> 24).toUInt8 = x := by
  apply UInt32.eq_of_toBitVec_eq
  simp only [le32, UInt32.toBitVec_or, UInt32.toBitVec_shiftLeft, UInt8.toBitVec_toUInt32,
    UInt32.toBitVec_toUInt8, UInt32.toBitVec_shiftRight, UInt32.toBitVec_ofNat]
  -- bit `i` comes from byte `i / 8` alone
  ext i hi
  simp only [getElem_or, shiftLeft_eq', getElem_shiftLeft,
    getElem_setWidth, getLsbD_setWidth, ushiftRight_eq',
    getLsbD_ushiftRight, toNat_umod, toNat_ofNat]
  rcases lt_or_ge i 8 with h8 | h8
  · simp [h8, show i < 16 by omega, show i < 24 by omega, getLsbD_eq_getElem hi]
  rcases lt_or_ge i 16 with h16 | h16
  · simp [h16, show i < 24 by omega, show ¬ i < 8 by omega, show i - 8 < 8 by omega,
      getLsbD_eq_getElem hi, Nat.add_sub_of_le h8]
  rcases lt_or_ge i 24 with h24 | h24
  · simp [h24, show ¬ i < 8 by omega, show ¬ i < 16 by omega, show ¬ i - 8 < 8 by omega,
      show i - 16 < 8 by omega, getLsbD_eq_getElem hi, Nat.add_sub_of_le h16]
  · simp [show ¬ i < 8 by omega, show ¬ i < 16 by omega, show ¬ i < 24 by omega,
      show ¬ i - 8 < 8 by omega, show ¬ i - 16 < 8 by omega, show i - 24 < 8 by omega,
      getLsbD_eq_getElem hi, Nat.add_sub_of_le h24]

/-- A 16-bit integer from two bytes, the lower first. -/
def le16 (a b : UInt8) : UInt16 := a.toUInt16 ||| (b.toUInt16 <<< 8)

def le16At : UInt16 := le16 (byteAt buf i) (byteAt buf (i + 1))

/-- The two bytes of a 16-bit integer, the lower first. -/
def toLe16 : Bytes := [x.toUInt8, (x >>> 8).toUInt8]

@[simp] theorem toLe16_length : (toLe16 x).length = 2 := rfl

theorem le16_toLe16 : le16 x.toUInt8 (x >>> 8).toUInt8 = x := by
  apply UInt16.eq_of_toBitVec_eq
  simp only [le16, UInt16.toBitVec_or, UInt16.toBitVec_shiftLeft, UInt8.toBitVec_toUInt16,
    UInt16.toBitVec_toUInt8, UInt16.toBitVec_shiftRight, UInt16.toBitVec_ofNat]
  ext i hi
  simp only [getElem_or, shiftLeft_eq', getElem_shiftLeft,
    getElem_setWidth, getLsbD_setWidth, ushiftRight_eq',
    getLsbD_ushiftRight, toNat_umod, toNat_ofNat]
  rcases lt_or_ge i 8 with h8 | h8
  · simp [h8, getLsbD_eq_getElem hi]
  · simp [show ¬ i < 8 by omega, show i - 8 < 8 by omega, getLsbD_eq_getElem hi,
      Nat.add_sub_of_le h8]

end

theorem le16_toUInt8 (a b : UInt8) : (le16 a b).toUInt8 = a := by
  apply UInt8.eq_of_toBitVec_eq
  simp only [le16, UInt16.toBitVec_toUInt8, UInt16.toBitVec_or, UInt16.toBitVec_shiftLeft,
    UInt8.toBitVec_toUInt16, UInt16.toBitVec_ofNat]
  ext i hi
  simp

theorem slice_length {buf : Bytes} {off n : Nat} (h : off + n ≤ buf.length) :
    (slice buf off n).length = n := by
  simp only [slice, length_take, length_drop]
  omega

theorem byteAt_slice {img : Bytes} {off n i : Nat} (h : i < n) :
    byteAt (slice img off n) i = byteAt img (off + i) := by simp [byteAt, slice, h]

/-- A part is found behind what comes before it. -/
theorem slice_append (a b c : Bytes) : slice (a ++ b ++ c) a.length b.length = b := by
  simp [slice, List.append_assoc]

theorem byteAt_append (a b : Bytes) (i : Nat) : byteAt (a ++ b) (a.length + i) = byteAt b i := by
  simp [byteAt, getElem?_append_right]

theorem le32At_append (a b : Bytes) (x : UInt32) : le32At (a ++ (toLe32 x ++ b)) a.length = x := by
  simp only [le32At, byteAt_append]
  rw [show byteAt (a ++ (toLe32 x ++ b)) a.length = byteAt (toLe32 x ++ b) 0 from
    byteAt_append a _ 0]
  exact le32_toLe32 x

theorem le16At_append (a b : Bytes) (x : UInt16) : le16At (a ++ (toLe16 x ++ b)) a.length = x := by
  simp only [le16At, byteAt_append]
  rw [show byteAt (a ++ (toLe16 x ++ b)) a.length = byteAt (toLe16 x ++ b) 0 from
    byteAt_append a _ 0]
  exact le16_toLe16 x

end MiniTree.Core
