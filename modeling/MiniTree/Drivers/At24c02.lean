import MiniTree.Board.Device
import MiniTree.Core.Bytes
import MiniTree.Core.RingBuffer

/-!
# The AT24C02 driver (`drivers/at24c02/src/at24c02_drv.c`)

The chip takes the bytes behind the address of a transfer into one page of 16 bytes, in which its
address counter goes round. A transfer that fails may leave anything in the chip.

**Results.** `write_then_read_iff`: the write stores its data, and a read gives it back, exactly for
the offsets and lengths that are refused, and those that start at a page or stay in one (and are not
so long that the 32-bit sum of the test wraps).
-/

namespace MiniTree.Drivers.At24c02

open MiniTree.Core Board List

abbrev Mem := Nat → UInt8

/-- A transfer of the address and at most 16 bytes. -/
def pageWrite (mem : Mem) (addr : Nat) (data : Bytes) : Mem := fun a =>
  if a / 16 = addr / 16 then
    ringWrite (fun i => mem (addr / 16 * 16 + i)) 16 (addr % 16) data (a % 16)
  else mem a

section
variable (hwReady : Bool) (offset : UInt8) (mem : Mem)

/-- What a transfer comes to, by its number: `none` if it succeeds. -/
abbrev Faults := Nat → Option (Mem → Mem)

/-- The loop at `done` bytes; the first argument bounds the rounds. Each chunk behind a full one
starts a multiple of 16 behind the first, so that `done / 16` transfers are over.
mirrors at24c02_drv.c:215-225 -/
def writeLoop (faults : Faults) (buf : Bytes) : Nat → Nat → Mem → Err × Mem
  | 0, _, mem => (.ok, mem)
  | fuel + 1, done, mem =>
    if done < buf.length then
      let chunk := if 16 < buf.length - done then 16 else buf.length - done
      match faults (done / 16) with
      | some f => (.io, f mem)
      | none => writeLoop faults buf fuel (done + chunk)
          (pageWrite mem ((offset.toNat + done) % 256) (slice buf done chunk))
    else (.ok, mem)

/-- mirrors at24c02_drv.c:205-227 (`at24c02_cmd_write`) -/
def cmdWrite (faults : Faults) (buf : Bytes) : Err × Mem :=
  if hwReady = false ∨ buf = [] then (.inval, mem)
  else if 256 < (offset.toNat + buf.length) % 2 ^ 32 then (.inval, mem)
  else writeLoop offset faults buf (buf.length + 1) 0 mem

/-- A read in sequence goes round at the end of the chip. The results of the two transfers are
given.
mirrors at24c02_drv.c:188-201 (`at24c02_cmd_read`) -/
def cmdRead (wr rd : Err) (len : Nat) : Err × Bytes :=
  if hwReady = false ∨ len = 0 then (.inval, [])
  else if 256 < (offset.toNat + len) % 2 ^ 32 then (.inval, [])
  else if wr ≠ .ok then (.io, [])
  else if rd ≠ .ok then (rd, [])
  else (.ok, window mem 256 offset.toNat len)

/-- A write that succeeds stores its data and nothing else, and a read that succeeds returns it. -/
def WriteThenRead (faults : Faults) (buf : Bytes) : Prop :=
  ∀ mem', cmdWrite hwReady offset mem faults buf = (.ok, mem') →
    mem' = copyTo mem offset.toNat buf ∧
    ∀ wr rd data, cmdRead hwReady offset mem' wr rd buf.length = (.ok, data) → data = buf

end

variable {hwReady : Bool} {offset : UInt8} {mem : Mem} {faults : Faults} {buf : Bytes}

theorem pageWrite_eq {addr : Nat} {data : Bytes} (h : addr % 16 + data.length ≤ 16) :
    pageWrite mem addr data = copyTo mem addr data := by
  funext a
  unfold pageWrite
  split
  · rename_i ha
    rw [ringWrite, if_pos (by omega)]
    have h1 : addr / 16 * 16 + a % 16 = a := by omega
    have h2 : addr % 16 ≤ a % 16 ↔ addr ≤ a := by omega
    have h3 : a % 16 - addr % 16 = a - addr := by omega
    simp only [copyTo, h1, h2, h3]
  · rcases lt_or_ge a addr with ha | ha
    · exact (copyTo_of_lt ha).symm
    · exact (copyTo_of_ge (by omega)).symm

theorem copyTo_append (mem : Mem) (dst : Nat) (a b : Bytes) :
    copyTo (copyTo mem dst a) (dst + a.length) b = copyTo mem dst (a ++ b) := by
  funext i
  simp only [copyTo]
  grind

/-- Chunks that start at a page, or the only one, are stored as they are. -/
theorem writeLoop_eq (hp : offset.toNat % 16 = 0 ∨ offset.toNat % 16 + buf.length ≤ 16)
    (ho : offset.toNat + buf.length ≤ 256) {fuel done : Nat} (hf : buf.length - done < fuel)
    (hd : done % 16 = 0 ∨ buf.length ≤ done) {mem mem' : Mem}
    (h : writeLoop offset faults buf fuel done mem = (.ok, mem')) :
    mem' = copyTo mem (offset.toNat + done) (buf.drop done) := by
  induction fuel generalizing done mem with
  | zero => omega
  | succ fuel ih =>
    rw [writeLoop] at h
    split at h
    · rename_i hlt
      dsimp only at h
      generalize hc : (if 16 < buf.length - done then 16 else buf.length - done) = chunk at h
      have hchunk : chunk ≤ buf.length - done ∧
          (chunk = 16 ∨ chunk < 16 ∧ chunk = buf.length - done) := by
        split at hc <;> omega
      have hlen : (slice buf done chunk).length = chunk := slice_length (by omega)
      split at h
      · cases h
      · rw [ih (by omega) (by omega) h, pageWrite_eq (by omega), Nat.mod_eq_of_lt (by omega)]
        have := copyTo_append mem (offset.toNat + done) (slice buf done chunk)
          (buf.drop (done + chunk))
        rw [hlen, add_assoc] at this
        rw [this, slice, ← drop_drop, take_append_drop]
    · cases h
      rw [drop_of_length_le (by omega), copyTo_nil]

theorem writeThenRead_of_pages (hp : offset.toNat % 16 = 0 ∨ offset.toNat % 16 + buf.length ≤ 16)
    (hl : offset.toNat + buf.length < 2 ^ 32) : WriteThenRead hwReady offset mem faults buf := by
  intro mem' h
  rw [cmdWrite] at h
  split at h
  · cases h
  split at h
  · cases h
  rename_i ho
  have hmem := writeLoop_eq hp (by omega) (by omega) (.inl rfl) h
  rw [drop_zero, add_zero] at hmem
  refine ⟨hmem, fun wr rd data hr => ?_⟩
  have hw : data = window mem' 256 offset.toNat buf.length := by
    unfold cmdRead at hr
    grind
  have hback := copyFrom_copyTo mem buf (le_refl offset.toNat)
  rw [hw, window_eq_copyFrom mem' (by omega), hmem]
  simpa [copyFrom] using hback

/-! Of data that does not start at a page and leaves it, the part behind the page goes to its front. -/

/-- A transfer leaves a byte as it is or makes it one of the data. -/
theorem pageWrite_mem (mem : Mem) (addr : Nat) (data : Bytes) (a : Nat) :
    pageWrite mem addr data a = mem a ∨ pageWrite mem addr data a ∈ data := by
  have hcopy : ∀ (m : Mem) (dst : Nat) (src : Bytes) (i : Nat),
      copyTo m dst src i = m i ∨ copyTo m dst src i ∈ src := fun m dst src i => by
    unfold copyTo
    split
    · rcases lt_or_ge (i - dst) src.length with h | h
      · right
        simp [h]
      · left
        simp [h]
    · exact .inl rfl
  unfold pageWrite
  split
  · rename_i ha
    have ha : addr / 16 * 16 + a % 16 = a := by omega
    unfold ringWrite
    split
    · simpa [ha] using hcopy (fun i => mem (addr / 16 * 16 + i)) (addr % 16) data (a % 16)
    · refine (hcopy _ 0 _ _).elim (fun h => ?_) fun h => .inr (mem_of_mem_drop h)
      rw [h]
      refine (hcopy _ (addr % 16) _ _).imp (fun h => ?_) mem_of_mem_take
      rw [h, ha]
  · exact .inl rfl

/-- Without faults the loop comes to its end, and what no byte of the data changes stays. -/
theorem writeLoop_keeps (hn : ∀ k, faults k = none) {a : Nat}
    (ha : 256 ≤ a ∨ ∀ b ∈ buf, b = mem a) {fuel done : Nat} (hf : buf.length - done < fuel) :
    ∃ mem', writeLoop offset faults buf fuel done mem = (.ok, mem') ∧ mem' a = mem a := by
  induction fuel generalizing done mem with
  | zero => omega
  | succ fuel ih =>
    unfold writeLoop
    split
    · rw [hn]
      dsimp only
      generalize hc : (if 16 < buf.length - done then 16 else buf.length - done) = chunk
      have hpos : 0 < chunk := by split at hc <;> omega
      have hkeep : pageWrite mem ((offset.toNat + done) % 256) (slice buf done chunk) a = mem a := by
        rcases ha with ha | ha
        · rw [pageWrite, if_neg (by omega)]
        · exact (pageWrite_mem ..).elim id fun h => ha _ (mem_of_mem_drop (mem_of_mem_take h))
      rw [← hkeep]
      exact ih (hkeep ▸ ha) (by omega)
    · exact ⟨mem, rfl, rfl⟩

/-- The first transfer of bytes that do not fit in the page fills the front of the page. -/
theorem pageWrite_front {addr len : Nat} (h : 16 < addr % 16 + len)
    (hlen : len ≤ 16) : pageWrite mem addr (replicate len 1) (addr / 16 * 16) = 1 := by
  rw [pageWrite, if_pos (by omega)]
  have hi : 16 - addr % 16 < (replicate len (1 : UInt8)).length := by
    rw [length_replicate]
    omega
  rw [show addr / 16 * 16 % 16 = (addr % 16 + (16 - addr % 16)) % 16 by omega,
    ringWrite_on (Nat.mod_lt _ (by decide)) (by simpa using hlen) hi, getElem_replicate]

/-! What is asked of a write, for ones on an empty chip. -/

section
variable {len : Nat} (h : WriteThenRead true offset (fun _ => 0) (fun _ => none) (replicate len 1))
  (hlen : len ≠ 0) (hsum : (offset.toNat + len) % 2 ^ 32 ≤ 256)
include h hlen hsum

theorem ones_stored {mem' : Mem} (hm : writeLoop offset (fun _ => none) (replicate len 1) (len + 1) 0
    (fun _ => 0) = (.ok, mem')) : mem' = copyTo (fun _ => 0) offset.toNat (replicate len 1) := by
  refine (h mem' ?_).1
  unfold cmdWrite
  rw [length_replicate, if_neg (by simp [hlen]), if_neg (by omega), hm]

/-- No transfer reaches an address behind the chip. -/
theorem ones_in_chip : offset.toNat + len ≤ 256 := by
  by_contra hgt
  have hoff := offset.toNat_lt
  obtain ⟨mem', hok, hmem⟩ : ∃ mem', writeLoop offset (fun _ => none) (replicate len 1) (len + 1) 0
      (fun _ => 0) = (.ok, mem') ∧ mem' 256 = 0 :=
    writeLoop_keeps (fun _ => rfl) (.inl le_rfl) (by simp)
  have hadd : copyTo (fun _ => 0) offset.toNat (replicate len (1 : UInt8))
      (offset.toNat + (256 - offset.toNat)) = _ := copyTo_add (by rw [length_replicate]; omega)
  rw [show offset.toNat + (256 - offset.toNat) = 256 by omega, ← ones_stored h hlen hsum hok, hmem,
    getElem_replicate] at hadd
  cases hadd

/-- The first transfer leaves a one at the front of the page, and the others keep it. -/
theorem ones_in_page : offset.toNat % 16 = 0 ∨ offset.toNat % 16 + len ≤ 16 := by
  by_contra hp
  obtain ⟨h0, hover⟩ := not_or.mp hp
  have hfront : pageWrite (fun _ => 0) (offset.toNat % 256) (replicate (min 16 len) 1)
      (offset.toNat / 16 * 16) = 1 := by
    rw [Nat.mod_eq_of_lt offset.toNat_lt]
    exact pageWrite_front (by omega) (by omega)
  obtain ⟨mem', hok, hmem⟩ : ∃ mem', writeLoop offset (fun _ => none) (replicate len 1) len
      (min 16 len) (pageWrite (fun _ => 0) (offset.toNat % 256) (replicate (min 16 len) 1)) =
        (.ok, mem') ∧ mem' (offset.toNat / 16 * 16) = _ :=
    writeLoop_keeps (fun _ => rfl) (.inr fun b hb => (eq_of_mem_replicate hb).trans hfront.symm)
      (by rw [length_replicate]; omega)
  have hstep : writeLoop offset (fun _ => none) (replicate len 1) (len + 1) 0 (fun _ => 0) =
      (.ok, mem') := by
    have hchunk : (if 16 < len - 0 then 16 else len - 0) = min 16 len := by split <;> omega
    have hslice : slice (replicate len (1 : UInt8)) 0 (min 16 len) = replicate (min 16 len) 1 := by
      simp [slice]
    unfold writeLoop
    rw [length_replicate, if_pos (by omega), hchunk]
    dsimp only
    rw [hslice, zero_add, add_zero]
    exact hok
  have hout := congrFun (ones_stored h hlen hsum hstep) (offset.toNat / 16 * 16)
  rw [hmem, hfront, copyTo_of_lt (by omega)] at hout
  cases hout

end

theorem write_then_read_iff (hwReady : Bool) (offset : UInt8) (len : Nat) :
    (∀ mem faults buf, buf.length = len → WriteThenRead hwReady offset mem faults buf) ↔
      (hwReady = true → len ≠ 0 → (offset.toNat + len) % 2 ^ 32 ≤ 256 →
        offset.toNat + len ≤ 256 ∧ (offset.toNat % 16 = 0 ∨ offset.toNat % 16 + len ≤ 16)) := by
  constructor
  · rintro h rfl hlen hsum
    have hones := h (fun _ => 0) (fun _ => none) (replicate len 1) length_replicate
    exact ⟨ones_in_chip hones hlen hsum, ones_in_page hones hlen hsum⟩
  · intro h mem faults buf hbuf mem' hok
    have hacc : hwReady = true ∧ len ≠ 0 ∧ (offset.toNat + len) % 2 ^ 32 ≤ 256 := by
      unfold cmdWrite at hok
      rw [← hbuf]
      split at hok
      · cases hok
      split at hok
      · cases hok
      simp_all [← length_eq_zero_iff]
    obtain ⟨hle, hp⟩ := h hacc.1 hacc.2.1 hacc.2.2
    rw [← hbuf] at hle hp
    exact writeThenRead_of_pages hp (by omega) mem' hok

/-- Two bytes from address 15 on: the second goes to the front of the page. -/
theorem write_wraps : ¬ WriteThenRead true 15 (fun _ => 0) (fun _ => none) [1, 2] := by
  intro h
  have := congrFun (h _ rfl).1 16
  exact absurd this (by decide)

end MiniTree.Drivers.At24c02
