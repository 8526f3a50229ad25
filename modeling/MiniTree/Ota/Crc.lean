import MiniTree.Core.Crc
import MiniTree.Core.Bytes

/-!
# The CRC of the image and of the state record (`algorithm/src/crc.c`)

The bitwise engine (`CRC_MODE` 0), for every width and both directions.

**Results.** `otaStateCrc32_blank`: no state word with the magic byte has `0xFFFFFFFF` as its
check word, so a record whose check word is not written is never taken for valid.
-/

namespace MiniTree.Ota.Crc

open MiniTree.Core BitVec List

/-- mirrors crc.c:17-28 (`reflect`), the loop -/
def reflectLoop : Nat → BitVec 32 → BitVec 32 → BitVec 32
  | 0, result, _ => result
  | n + 1, result, value => reflectLoop n ((result <<< 1) ||| (value &&& 1)) (value >>> 1)

def reflect (value : BitVec 32) (width : Nat) : BitVec 32 := reflectLoop width 0 value

structure Stream where
  reg : BitVec 32
  poly : BitVec 32
  xorOut : BitVec 32
  /-- zero marks a state that is not valid -/
  width : Nat
  refin : Bool
  refout : Bool
  deriving DecidableEq, Repr

def maskOf (width : Nat) : BitVec 32 :=
  if 32 ≤ width then 0xFFFFFFFF else (1 <<< width) - 1

def wordOf (byte : UInt8) : BitVec 32 := byte.toBitVec.setWidth 32

/-- One round of the loop that shifts to the right. -/
def shiftRight (poly mask reg : BitVec 32) : BitVec 32 :=
  (if reg &&& 1 ≠ 0 then (reg >>> 1) ^^^ poly else reg >>> 1) &&& mask

/-- One round of the loop that shifts to the left. -/
def shiftLeft (poly mask top reg : BitVec 32) : BitVec 32 :=
  (if reg &&& top ≠ 0 then (reg <<< 1) ^^^ poly else reg <<< 1) &&& mask

/-- One byte of the engine.
mirrors crc.c:41-106 (`crc_bitwise_engine`) -/
def engineByte (refin : Bool) (poly : BitVec 32) (width : Nat) (mask reg : BitVec 32)
    (byte : UInt8) : BitVec 32 :=
  if refin then
    if 8 ≤ width then (shiftRight poly mask)^[8] (reg ^^^ wordOf byte)
    else (range 8).foldl (fun reg i =>
      shiftRight poly mask (reg ^^^ ((wordOf byte >>> i) &&& 1))) reg
  else
    let top : BitVec 32 := 1 <<< (width - 1)
    if 8 ≤ width then (shiftLeft poly mask top)^[8] (reg ^^^ (wordOf byte <<< (width - 8)))
    else (range 8).foldl (fun reg i =>
      shiftLeft poly mask top (reg ^^^ (((wordOf byte >>> (7 - i)) &&& 1) <<< (width - 1)))) reg

def bitwiseEngine (data : Bytes) (reg : BitVec 32) (refin : Bool) (poly : BitVec 32) (width : Nat)
    (mask : BitVec 32) : BitVec 32 :=
  data.foldl (engineByte refin poly width mask) reg

/-- mirrors crc.c:220-229 (`crc_finalize`) -/
def finalize (reg : BitVec 32) (width : Nat) (refin refout : Bool) (xorOut mask : BitVec 32) :
    BitVec 32 :=
  ((if refin ≠ refout then reflect reg width else reg) ^^^ xorOut) &&& mask

/-- mirrors crc.c:234-261 (`crc_stream_start`) -/
def streamStart (init : BitVec 32) (refin refout : Bool) (xorOut poly : BitVec 32) (width : Nat) :
    Stream :=
  if width = 0 ∨ 32 < width then ⟨0, 0, 0, 0, false, false⟩
  else if refin then
    ⟨reflect init width &&& maskOf width, reflect poly width &&& maskOf width, xorOut, width, refin,
      refout⟩
  else ⟨init &&& maskOf width, poly &&& maskOf width, xorOut, width, refin, refout⟩

/-- mirrors crc.c:263-279 (`crc_stream_feed`) -/
def streamFeed (s : Stream) (data : Bytes) : Stream :=
  if s.width = 0 ∨ 32 < s.width then s
  else { s with reg := bitwiseEngine data s.reg s.refin s.poly s.width (maskOf s.width) }

/-- mirrors crc.c:281-293 (`crc_stream_finish`) -/
def streamFinish (s : Stream) : BitVec 32 :=
  if s.width = 0 ∨ 32 < s.width then 0
  else finalize s.reg s.width s.refin s.refout s.xorOut (maskOf s.width)

/-- mirrors bootutil/src/ota_state.c:13-27 -/
def otaStateCrc32 (stateWord : BitVec 32) : BitVec 32 :=
  let bytes : Bytes := [⟨stateWord.setWidth 8⟩, ⟨(stateWord >>> 8).setWidth 8⟩,
    ⟨(stateWord >>> 16).setWidth 8⟩, ⟨(stateWord >>> 24).setWidth 8⟩]
  streamFinish (streamFeed (streamStart 0xFFFFFFFF true true 0xFFFFFFFF 0x04C11DB7 32) bytes)

/-! ## The 32-bit reflected register -/

/-- The reflected polynomial of CRC-32. -/
def polynomial : BitVec 32 := 0xEDB88320

theorem lowBit_ne_zero (x : BitVec 32) : (x &&& 1 ≠ 0) ↔ x.getLsbD 0 = true := by
  have h : x &&& 1 = BitVec.setWidth 32 (BitVec.ofBool (x.getLsbD 0)) :=
    and_one_eq_setWidth_ofBool_getLsbD
  rw [h]
  cases x.getLsbD 0 <;> decide

theorem shiftRight_eq (poly reg : BitVec 32) : shiftRight poly 0xFFFFFFFF reg = Crc.step poly reg := by
  have hmask : ∀ x : BitVec 32, x &&& 0xFFFFFFFF = x := fun x => and_allOnes
  unfold shiftRight Crc.step
  rw [hmask]
  exact if_congr (lowBit_ne_zero reg) rfl rfl

def feed (reg : BitVec 32) (byte : UInt8) : BitVec 32 :=
  (Crc.step polynomial)^[8] (reg ^^^ wordOf byte)

theorem otaStateCrc32_eq (word : BitVec 32) :
    otaStateCrc32 word = feed (feed (feed (feed 0xFFFFFFFF ⟨word.setWidth 8⟩)
      ⟨(word >>> 8).setWidth 8⟩) ⟨(word >>> 16).setWidth 8⟩) ⟨(word >>> 24).setWidth 8⟩ ^^^
        0xFFFFFFFF := by
  have hstart : streamStart 0xFFFFFFFF true true 0xFFFFFFFF 0x04C11DB7 32 =
      ⟨0xFFFFFFFF, polynomial, 0xFFFFFFFF, 32, true, true⟩ := by decide
  have hfun : shiftRight polynomial 0xFFFFFFFF = Crc.step polynomial :=
    funext fun reg => shiftRight_eq polynomial reg
  have hmask : ∀ x : BitVec 32, x &&& 0xFFFFFFFF = x := fun x => and_allOnes
  have hbyte : ∀ reg byte, engineByte true polynomial 32 0xFFFFFFFF reg byte = feed reg byte := by
    intro reg byte
    unfold engineByte feed
    rw [if_pos rfl, if_pos (by decide), hfun]
  unfold otaStateCrc32
  rw [hstart]
  change finalize (bitwiseEngine _ _ true polynomial 32 0xFFFFFFFF) 32 true true 0xFFFFFFFF
    0xFFFFFFFF = _
  unfold finalize bitwiseEngine
  rw [hmask, if_neg (fun h => h rfl)]
  simp only [foldl_cons, foldl_nil, hbyte]

/-- What was in the register when a byte leaves a word of three bytes. -/
theorem eq_of_feed {reg y : BitVec 32} {byte : UInt8} (hy : y.toNat < 2 ^ 24)
    (h : feed reg byte = y) : reg = (y <<< 8) ^^^ wordOf byte := by
  have hpoly : polynomial.getLsbD (32 - 1) = true := by decide
  have hx := Crc.eq_of_iterate_step hpoly (by omega) h
  rw [← hx, xor_assoc, BitVec.xor_self, xor_zero]

theorem toNat_wordOf (byte : UInt8) : (wordOf byte).toNat < 2 ^ 8 := by
  unfold wordOf
  rw [toNat_setWidth]
  exact lt_of_le_of_lt (Nat.mod_le _ _) byte.toBitVec.isLt

theorem toNat_prepend {y : BitVec 32} {n : Nat} (hn : n + 8 ≤ 32) (hy : y.toNat < 2 ^ n)
    (byte : UInt8) : ((y <<< 8) ^^^ wordOf byte).toNat < 2 ^ (n + 8) := by
  rw [toNat_xor, toNat_shiftLeft, Nat.shiftLeft_eq]
  refine Nat.xor_lt_two_pow ?_ ?_
  · refine lt_of_le_of_lt (Nat.mod_le _ _) ?_
    rw [pow_add]
    exact Nat.mul_lt_mul_of_pos_right hy (by decide)
  · exact lt_of_lt_of_le (toNat_wordOf byte) (Nat.pow_le_pow_right (by decide) (by omega))

theorem getLsbD_prepend_low (y : BitVec 32) (byte : UInt8) {i : Nat} (hi : i < 8) :
    ((y <<< 8) ^^^ wordOf byte).getLsbD i = byte.toBitVec.getLsbD i := by
  unfold wordOf
  rw [getLsbD_xor, getLsbD_shiftLeft, getLsbD_setWidth, decide_eq_true hi,
    decide_eq_true (show i < 32 by omega)]
  simp

theorem getLsbD_prepend_high (y : BitVec 32) (byte : UInt8) {i : Nat} (hi : i + 8 < 32) :
    ((y <<< 8) ^^^ wordOf byte).getLsbD (i + 8) = y.getLsbD i := by
  unfold wordOf
  rw [getLsbD_xor, getLsbD_shiftLeft, getLsbD_setWidth, decide_eq_true hi,
    getLsbD_of_ge byte.toBitVec _ (Nat.le_add_left 8 i), decide_eq_false (by omega)]
  simp

/-- Only a word whose second byte is `0xFF` has the check word of a blank record. -/
theorem otaStateCrc32_blank {word : BitVec 32} (h : otaStateCrc32 word = 0xFFFFFFFF) :
    (word >>> 8).setWidth 8 = 0xFF#8 := by
  rw [otaStateCrc32_eq] at h
  have hz : ∀ x : BitVec 32, x ^^^ 0xFFFFFFFF = 0xFFFFFFFF → x = 0 := by
    intro x hx
    have hc := congrArg (· ^^^ 0xFFFFFFFF) hx
    rwa [xor_assoc, BitVec.xor_self, xor_zero] at hc
  -- the register is read back from the end, a byte at a time
  have h4 := eq_of_feed (by decide) (hz _ h)
  have b4 := @toNat_prepend 0 0 (by decide) (by decide) ⟨(word >>> 24).setWidth 8⟩
  have h3 := eq_of_feed (lt_trans b4 (by decide)) h4
  have b3 := toNat_prepend (by decide) b4 ⟨(word >>> 16).setWidth 8⟩
  have h2 := eq_of_feed (lt_trans b3 (by decide)) h3
  have b2 := toNat_prepend (by decide) b3 ⟨(word >>> 8).setWidth 8⟩
  have h1 := eq_of_feed b2 h2
  have hff : ∀ i < 8, (0xFFFFFFFF : BitVec 32).getLsbD (i + 8) = (0xFF#8).getLsbD i := by decide
  apply eq_of_getLsbD_eq
  intro i hi
  rw [← hff i hi, h1, getLsbD_prepend_high _ _ (by omega), getLsbD_prepend_low _ _ hi]

end MiniTree.Ota.Crc
