import MiniTree.Core.Bits
import MiniTree.Core.Flash
import MiniTree.Core.LTS
import Mathlib.Algebra.Order.Ring.Nat

/-!
# The flash log

`mini-log/src/log.c`: records are appended as frames (magic, length, tick, CRC, payload) padded
to the write granularity. The cursor wraps to the start of the partition when a frame does not
fit; the sectors a frame enters are erased right before it, and the sector the cursor lands on
right after it. Recovery walks the frames from the start of the partition.

Sizes are `size_t` of 32 bits. The CRC over the two parts that are fed to it is a parameter:
writer and recovery feed it the same bytes.

This module has the model, the property (`Op.Ok`, `FlashLog.Recovers`), and what the sizes that
a write computes come to in a geometry that does not reach the end of `size_t`.
-/

namespace MiniTree.Log

open MiniTree.Core Nat List

/-- A `size_t`. -/
def sz (n : Nat) : Nat := n % 2 ^ 32

/-- mirrors mini-log/inc/log_config.h:86-92 (`MINI_LOG_FLASH_RING_SIZE`), the size of the frame
buffer -/
def ringSize : Nat := 512

/-- The size of `mini_log_frame_handle_check_t`. -/
def headerSize : Nat := 10

/-- mirrors mini-log/inc/log_config.h:78-84 (`MINI_LOG_MAGIC`) -/
def magic : UInt16 := 4

/-- mirrors mini-log/inc/log_config.h:70-76 (`MINI_LOG_DEFAULT_ALIGIN`) -/
def defaultAlign : Nat := 4

/-- mirrors mini-log/inc/log.h:82-87 (`mini_log_flash_info_t`) -/
structure Info where
  totalSize : Nat
  sectorSize : Nat
  writeGran : Nat
  deriving DecidableEq, Repr

def Info.align (info : Info) : Nat := if 0 < info.writeGran then info.writeGran else defaultAlign

/-- The round up of `n` to a multiple of the power of two `a`, by the mask `~(a - 1)`. -/
def alignUp (n a : Nat) : Nat := sz (n + (a - 1)) &&& (2 ^ 32 - a)

/-- What a record of `len` bytes takes. -/
def Info.writeLen (info : Info) (len : Nat) : Nat := alignUp (sz (headerSize + len)) info.align

/-- An operation on the device; `fresh` tells whether none of the bytes was programmed since it
was last erased. -/
inductive Op where
  | erase (off n : Nat)
  | program (off n : Nat) (fresh : Bool)
  deriving DecidableEq, Repr

/-- mirrors log.c:34-39 (`mini_log_flash_ctx_t`), with the device behind it; `records`
are the records since the last wrap -/
structure FlashLog where
  info : Info
  writeOffset : Nat
  flash : Flash
  ops : List Op
  records : List (UInt32 × Bytes)

inductive Err where
  | ok | param | tooLong
  deriving DecidableEq, Repr

/-- mirrors log.c:187-211 (`mini_log_flash_register_cxt`) -/
def register (info : Info) (flash : Flash) : Option FlashLog :=
  if info.totalSize = 0 ∨ info.sectorSize = 0 then none
  else if info.totalSize % info.sectorSize ≠ 0 then none
  else if info.writeGran ≠ 0 ∧ info.writeGran &&& (info.writeGran - 1) ≠ 0 then none
  else some ⟨info, 0, flash, [], []⟩

section Frames

variable (crc : Bytes → Bytes → UInt16)

/-- The part of the frame header in front of the CRC. -/
def head (len : UInt16) (tick : UInt32) : Bytes := toLe16 magic ++ toLe16 len ++ toLe32 tick

/-- mirrors log.c:254-269: the frame of a record -/
def frame (tick : UInt32) (data : Bytes) : Bytes :=
  head (.ofNat data.length) tick ++ toLe16 (crc (head (.ofNat data.length) tick) data) ++ data

/-- The first `n` bytes of the frame buffer. -/
def frameBuf (tick : UInt32) (data : Bytes) (n : Nat) : Bytes :=
  (frame crc tick data ++ replicate (ringSize - (frame crc tick data).length) 0xFF).take n

end Frames

namespace FlashLog

variable (crc : Bytes → Bytes → UInt16)

section
variable (s : FlashLog) (tick : UInt32) (data : Bytes)

def eraseIf (c : Bool) (off n : Nat) : FlashLog :=
  { s with
    flash := if c then s.flash.erase off n else s.flash
    ops := if c then s.ops ++ [.erase off n] else s.ops }

def programOp (off : Nat) (data : Bytes) : FlashLog :=
  { s with
    flash := s.flash.program off data
    ops := s.ops ++ [.program off data.length
      ((range data.length).all fun i => !s.flash.programmed (off + i))] }

/-- mirrors log.c:251-252 -/
def wrap (writeLen : Nat) : FlashLog :=
  if s.info.totalSize < sz (s.writeOffset + writeLen) then { s with writeOffset := 0, records := [] }
  else s

/-- mirrors log.c:273-275 -/
def eraseStart : Nat :=
  if s.writeOffset % s.info.sectorSize = 0 then s.writeOffset
  else sz ((s.writeOffset / s.info.sectorSize + 1) * s.info.sectorSize)

/-- mirrors log.c:272, 276 -/
def eraseEnd (writeLen : Nat) : Nat :=
  sz (sz (s.writeOffset + writeLen) + s.info.sectorSize - 1) / s.info.sectorSize * s.info.sectorSize

/-- mirrors log.c:282-283 -/
def eraseAhead (writeLen : Nat) : FlashLog :=
  s.eraseIf (s.eraseStart < s.eraseEnd writeLen) s.eraseStart (s.eraseEnd writeLen - s.eraseStart)

/-- mirrors log.c:288-293 -/
def append (writeLen : Nat) : FlashLog :=
  { s.programOp s.writeOffset (frameBuf crc tick data writeLen) with
    writeOffset := sz (s.writeOffset + writeLen)
    records := s.records ++ [(tick, data)] }

/-- mirrors log.c:294-296 -/
def eraseNext : FlashLog :=
  s.eraseIf (s.writeOffset < s.info.totalSize ∧ s.writeOffset % s.info.sectorSize = 0)
    s.writeOffset s.info.sectorSize

/-- mirrors log.c:271-298 -/
def store (writeLen : Nat) : FlashLog :=
  ((s.eraseAhead writeLen).append crc tick data writeLen).eraseNext

/-- All operations of the device succeed. `none` when the copy of the payload overruns the frame
buffer, which takes a wrapped length.
mirrors log.c:236-301 (`mini_log_flash_write_record`) -/
def writeRecord : Option (Err × FlashLog) :=
  let writeLen := s.info.writeLen data.length
  if data = [] then some (.param, s)
  else if ringSize < writeLen ∨ s.info.totalSize < writeLen then some (.tooLong, s)
  else if ringSize < headerSize + data.length then none
  else some (.ok, (s.wrap writeLen).store crc tick data writeLen)

/-- The walk over the frames: where it stops, how many there are, and whether it stops at bytes
that are not erased.
mirrors log.c:418-465 -/
def recoverLoop (s : FlashLog) : Nat → Nat → Nat → Option (Nat × Nat × Bool)
  | 0, _, _ => none
  | fuel + 1, offset, frames =>
    if sz (offset + headerSize) ≤ s.info.totalSize then
      let h := s.flash.read offset headerSize
      let len := (le16At h 2).toNat
      if le16At h 0 ≠ magic then some (offset, frames, h.any (· ≠ 0xFF))
      else if len = 0 then some (offset, frames, true)
      else if ringSize < headerSize + len ∨ s.info.totalSize < sz (offset + (headerSize + len)) then
        some (offset, frames, true)
      else if crc (h.take 8) (s.flash.read (sz (offset + headerSize)) len) ≠ le16At h 8 then
        some (offset, frames, true)
      else recoverLoop s fuel (sz (offset + alignUp (headerSize + len) s.info.align)) (frames + 1)
    else some (offset, frames, false)

/-- mirrors log.c:395-485 (`mini_log_flash_recover`) -/
def recover : Option (Nat × FlashLog) :=
  match s.recoverLoop crc (s.info.totalSize + 1) 0 0 with
  | none => none
  | some (offset, frames, dirty) =>
    let offset := if dirty = true then
        sz (offset + s.info.sectorSize - 1) / s.info.sectorSize * s.info.sectorSize
      else offset
    some (frames, { s with writeOffset := if s.info.totalSize < offset then 0 else offset })

end

end FlashLog

/-! ## What the property says -/

def Op.Ok (info : Info) : Op → Prop
  | .erase off n => info.sectorSize ∣ off ∧ info.sectorSize ∣ n ∧ off + n ≤ info.totalSize
  | .program off n fresh => fresh = true ∧ off + n ≤ info.totalSize

variable (crc : Bytes → Bytes → UInt16)

/-- The records as they stand in the partition. -/
def FlashLog.image (s : FlashLog) : Bytes :=
  s.records.flatMap fun r => frameBuf crc r.1 r.2 (s.info.writeLen r.2.length)

/-- What a recovery in this state does. -/
structure FlashLog.Recovers (s : FlashLog) : Prop where
  stored : s.flash.read 0 s.writeOffset = s.image crc
  recovers : ∃ s₀ s₁, register s.info s.flash = some s₀ ∧
    s₀.recover crc = some (s.records.length, s₁) ∧
    ∀ tick data s₂, s₁.writeRecord crc tick data = some (.ok, s₂) →
      s₁.writeOffset + s.info.writeLen data.length ≤ s.info.totalSize →
        ∀ a < s.writeOffset, s₂.flash.mem a = s.flash.mem a

def next (s : FlashLog) (record : UInt32 × Bytes) : Option FlashLog :=
  (s.writeRecord crc record.1 record.2).map Prod.snd

/-- Writes to an erased partition. -/
def system (info : Info) : LTS FlashLog (UInt32 × Bytes) :=
  LTS.ofFn (fun s => register info .erased = some s) (next crc)

/-! ## Sizes -/

variable {crc}

/-- A geometry that is registered, fits its granularity, and is not at the end of `size_t`. -/
structure Geometry (info : Info) : Prop where
  sector_pos : 0 < info.sectorSize
  total_pos : 0 < info.totalSize
  dvd : info.sectorSize ∣ info.totalSize
  pow : ∃ k ≤ 32, info.align = 2 ^ k
  align_le : info.align ≤ info.totalSize
  room : info.totalSize + ringSize < 2 ^ 32

theorem sz_of_lt {n : Nat} (h : n < 2 ^ 32) : sz n = n := mod_eq_of_lt h

theorem Geometry.of_register {info : Info} {flash : Flash} {s : FlashLog}
    (h : register info flash = some s) (hgran : info.align ∣ info.sectorSize)
    (hroom : info.totalSize + ringSize < 2 ^ 32) : Geometry info ∧ s = ⟨info, 0, flash, [], []⟩ := by
  obtain ⟨h0, h⟩ := Option.ite_none_left_eq_some.mp h
  split at h
  · cases h
  rename_i hdvd
  split at h
  · cases h
  rename_i hpow
  cases h
  have hdvd := dvd_of_mod_eq_zero (not_not.mp hdvd)
  have hs : 0 < info.sectorSize := by omega
  have ht : 0 < info.totalSize := by omega
  have hle := (le_of_dvd hs hgran).trans (le_of_dvd ht hdvd)
  refine ⟨⟨hs, ht, hdvd, ?_, hle, hroom⟩, rfl⟩
  have hp : ∃ k, info.align = 2 ^ k := by
    unfold Info.align
    split
    · rename_i hg
      have hand : info.writeGran &&& (info.writeGran - 1) = 0 := by
        by_contra hand
        exact hpow ⟨Nat.ne_of_gt hg, hand⟩
      exact (and_sub_one_eq_zero_iff_isPowerOfTwo hg.ne').mp hand
    · exact ⟨2, rfl⟩
  obtain ⟨k, hk⟩ := hp
  refine ⟨k, ?_, hk⟩
  by_contra hlt
  have hbig : 2 ^ 32 ≤ 2 ^ k := Nat.pow_le_pow_right (by decide) (by omega)
  omega

namespace Geometry

variable {info : Info} (g : Geometry info)

include g

theorem alignUp_spec {n : Nat} (hn : n ≤ ringSize) :
    n ≤ alignUp n info.align ∧ alignUp n info.align < n + info.align := by
  obtain ⟨k, hk, ha⟩ := g.pow
  have hpos : 0 < info.align := ha ▸ Nat.two_pow_pos k
  have hlt : n + (info.align - 1) < 2 ^ 32 := by
    have := g.align_le
    have := g.room
    omega
  have heq : alignUp n info.align = (n + (info.align - 1)) / info.align * info.align := by
    unfold alignUp
    rw [sz_of_lt hlt, ha]
    exact Bits.and_mask hk (ha ▸ hlt)
  have hdiv := div_add_mod (n + (info.align - 1)) info.align
  have hmod := mod_lt (n + (info.align - 1)) hpos
  rw [mul_comm] at hdiv
  rw [heq]
  omega

/-- What a record takes when it goes into the frame buffer. -/
theorem writeLen_spec {len : Nat} (h : headerSize + len ≤ ringSize) :
    info.writeLen len = alignUp (headerSize + len) info.align ∧
      headerSize + len ≤ info.writeLen len := by
  have hsz : sz (headerSize + len) = headerSize + len := by
    apply sz_of_lt
    have : ringSize = 512 := rfl
    omega
  have heq : info.writeLen len = alignUp (headerSize + len) info.align := by
    unfold Info.writeLen
    rw [hsz]
  rw [heq]
  exact ⟨rfl, (g.alignUp_spec h).1⟩

theorem lt_sector (a : Nat) : a < (a / info.sectorSize + 1) * info.sectorSize :=
  (Nat.div_lt_iff_lt_mul g.sector_pos).mp (lt_succ_self _)

/-- The end of a byte's sector is inside the partition. -/
theorem sector_le {a : Nat} (ha : a < info.totalSize) :
    (a / info.sectorSize + 1) * info.sectorSize ≤ info.totalSize := by
  obtain ⟨t, ht⟩ := g.dvd
  rw [ht, mul_comm info.sectorSize t] at ha ⊢
  exact Nat.mul_le_mul_right _ ((Nat.div_lt_iff_lt_mul g.sector_pos).mpr ha)

end Geometry

namespace FlashLog

variable {s : FlashLog} {writeLen : Nat}

section
variable (g : Geometry s.info)
include g

theorem eraseStart_eq (hw : s.writeOffset < s.info.totalSize)
    (h : s.writeOffset % s.info.sectorSize ≠ 0) :
    s.eraseStart = (s.writeOffset / s.info.sectorSize + 1) * s.info.sectorSize := by
  unfold eraseStart
  rw [if_neg h, sz_of_lt]
  have := g.sector_le hw
  have := g.room
  omega

theorem le_eraseStart (hw : s.writeOffset < s.info.totalSize) :
    s.writeOffset ≤ s.eraseStart ∧ s.info.sectorSize ∣ s.eraseStart := by
  by_cases h : s.writeOffset % s.info.sectorSize = 0
  · unfold eraseStart
    rw [if_pos h]
    exact ⟨le_refl _, dvd_of_mod_eq_zero h⟩
  · rw [eraseStart_eq g hw h]
    exact ⟨(g.lt_sector _).le, Nat.dvd_mul_left ..⟩

/-- The end of the frame's last sector, or nothing at all when the sum wraps. -/
theorem eraseEnd_cases (hpos : 0 < writeLen)
    (hfit : s.writeOffset + writeLen ≤ s.info.totalSize) :
    s.eraseEnd writeLen = ((s.writeOffset + writeLen - 1) / s.info.sectorSize + 1) * s.info.sectorSize ∨
      s.eraseEnd writeLen = 0 ∧ 2 ^ 32 ≤ s.writeOffset + writeLen + s.info.sectorSize - 1 := by
  have hroom := g.room
  have hs := g.sector_pos
  have hsz : sz (s.writeOffset + writeLen) = s.writeOffset + writeLen := sz_of_lt (by omega)
  unfold eraseEnd
  rw [hsz]
  by_cases hlt : s.writeOffset + writeLen + s.info.sectorSize - 1 < 2 ^ 32
  · left
    rw [sz_of_lt hlt, show s.writeOffset + writeLen + s.info.sectorSize - 1 =
      s.writeOffset + writeLen - 1 + s.info.sectorSize by omega, add_div_right _ hs]
  right
  have hle := le_of_dvd g.total_pos g.dvd
  have hwrap : sz (s.writeOffset + writeLen + s.info.sectorSize - 1) < s.info.sectorSize := by
    unfold sz
    rw [mod_eq_sub_mod (not_lt.mp hlt), mod_eq_of_lt (by omega)]
    omega
  exact ⟨by rw [div_eq_of_lt hwrap, zero_mul], not_lt.mp hlt⟩

/-- Behind the cursor, the sectors of the frame are the rest of the current one and what is
erased. -/
theorem covered (hpos : 0 < writeLen) (hring : writeLen ≤ ringSize)
    (hfit : s.writeOffset + writeLen ≤ s.info.totalSize) {a : Nat} (ha : s.writeOffset ≤ a)
    (hsec : a / s.info.sectorSize ≤ (s.writeOffset + writeLen - 1) / s.info.sectorSize) :
    s.writeOffset % s.info.sectorSize ≠ 0 ∧
        a / s.info.sectorSize = s.writeOffset / s.info.sectorSize ∨
      s.eraseStart ≤ a ∧ a < s.eraseEnd writeLen := by
  have hw : s.writeOffset < s.info.totalSize := by omega
  have hroom := g.room
  have hs := g.sector_pos
  -- the sum that is rounded up does not wrap when a sector is entered
  have hend : s.writeOffset + writeLen + s.info.sectorSize - 1 < 2 ^ 32 →
      a < s.eraseEnd writeLen := by
    intro hlt
    rcases eraseEnd_cases g hpos hfit with h | h
    · rw [h]
      exact (Nat.div_lt_iff_lt_mul hs).mp (lt_succ_of_le hsec)
    · omega
  by_cases h0 : s.writeOffset % s.info.sectorSize = 0
  · right
    refine ⟨?_, hend ?_⟩
    · unfold eraseStart
      rw [if_pos h0]
      exact ha
    · have hle := g.sector_le hw
      rw [succ_mul, Nat.div_mul_cancel (dvd_of_mod_eq_zero h0)] at hle
      omega
  rcases lt_or_ge (s.writeOffset / s.info.sectorSize) (a / s.info.sectorSize) with hlt | hge
  · right
    have hstart := (Nat.le_div_iff_mul_le hs).mp hlt
    have hlast : (s.writeOffset / s.info.sectorSize + 1) * s.info.sectorSize ≤
        s.writeOffset + writeLen - 1 := (Nat.le_div_iff_mul_le hs).mp (le_trans hlt hsec)
    refine ⟨?_, hend ?_⟩
    · rw [eraseStart_eq g hw h0]
      exact hstart
    · have hcur := g.lt_sector s.writeOffset
      have hle := g.sector_le (a := (s.writeOffset / s.info.sectorSize + 1) * s.info.sectorSize)
        (by omega)
      rw [Nat.mul_div_cancel _ hs, succ_mul] at hle
      omega
  · left
    exact ⟨h0, hge.antisymm (Nat.div_le_div_right ha)⟩

end

end FlashLog

end MiniTree.Log
