import MiniTree.Log.Flash

/-!
# Writes and recovery of the flash log

Between two writes the sector under the cursor is blank from the cursor on: a write erases the
sectors that its frame enters, and the one that the cursor lands on. So a write programs blank
bytes only, and the walk over the frames stops at the cursor, where the first byte is `0xFF`.

**Results.** `flash_log_recovers`: over every run of writes, programs hit erased bytes and
erases whole sectors inside the partition, and recovery counts the records since the last
wrap and puts the cursor where a write that does not wrap overwrites none of them.
-/

namespace MiniTree.Log

open MiniTree.Core List Nat Option UInt16

variable {crc : Bytes → Bytes → UInt16}

namespace FlashLog

variable {s s' : FlashLog} {writeLen offset a : Nat} {tick : UInt32} {data : Bytes}

/-! ## One write -/

theorem frame_length (tick : UInt32) (data : Bytes) :
    (frame crc tick data).length = headerSize + data.length := by
  unfold frame head
  simp only [length_append, toLe16_length, toLe32_length]
  rfl

theorem frameBuf_length (crc : Bytes → Bytes → UInt16) (tick : UInt32)
    (h : headerSize + data.length ≤ ringSize) (hring : writeLen ≤ ringSize) : (frameBuf crc tick data writeLen).length = writeLen := by
  unfold frameBuf
  rw [length_take, length_append, length_replicate, frame_length]
  omega

/-- The operations of a step are those before it and some that are allowed. -/
def OpsOk (s : FlashLog) : Prop := ∀ op ∈ s.ops, op.Ok s.info

section EraseIf

variable {c : Bool} {off n : Nat}

theorem eraseIf_ops (h : OpsOk s) (hok : c = true → (Op.erase off n).Ok s.info) :
    OpsOk (s.eraseIf c off n) := by
  unfold OpsOk eraseIf
  dsimp only
  split
  · rename_i hc
    exact forall_mem_append.mpr ⟨h, forall_mem_singleton.mpr (hok hc)⟩
  · exact h

theorem eraseIf_mem (ha : a < off) : (s.eraseIf c off n).flash.mem a = s.flash.mem a := by
  unfold eraseIf
  dsimp only
  split
  · exact Flash.mem_erase_of_not fun hin => absurd hin.1 (not_le.mpr ha)
  · rfl

theorem eraseIf_blank (h : c = true ∧ Flash.Within off n a ∨ s.flash.Blank a) :
    (s.eraseIf c off n).flash.Blank a := by
  unfold eraseIf
  dsimp only
  split
  · rcases h with h | h
    · exact Flash.blank_erase h.2
    · exact h.erase
  rename_i hc
  rcases h with h | h
  · exact absurd h.1 hc
  · exact h

end EraseIf

section
variable (g : Geometry s.info)
include g

theorem eraseAhead_ops (h : OpsOk s) (hpos : 0 < writeLen)
    (hfit : s.writeOffset + writeLen ≤ s.info.totalSize) : OpsOk (s.eraseAhead writeLen) := by
  have hstart := (le_eraseStart g (by omega)).2
  refine eraseIf_ops h fun hlt => ?_
  have hlt := of_decide_eq_true hlt
  rcases eraseEnd_cases g hpos hfit with hend | hend
  · have hle := g.sector_le (a := s.writeOffset + writeLen - 1) (by omega)
    rw [← hend] at hle
    refine ⟨hstart, dvd_sub ?_ hstart, by omega⟩
    rw [hend]
    exact dvd_mul_left ..
  · omega

/-- The rest of the current sector was blank, the others that the frame enters are erased. -/
theorem eraseAhead_blank (hpos : 0 < writeLen) (hring : writeLen ≤ ringSize)
    (hfit : s.writeOffset + writeLen ≤ s.info.totalSize)
    (hrest : s.writeOffset % s.info.sectorSize ≠ 0 → ∀ a, s.writeOffset ≤ a → a < s.info.totalSize →
      a / s.info.sectorSize = s.writeOffset / s.info.sectorSize → s.flash.Blank a)
    (ha : s.writeOffset ≤ a)
    (hsec : a / s.info.sectorSize ≤ (s.writeOffset + writeLen - 1) / s.info.sectorSize) :
    (s.eraseAhead writeLen).flash.Blank a := by
  apply eraseIf_blank
  rcases covered g hpos hring hfit ha hsec with ⟨h0, hsame⟩ | ⟨h1, h2⟩
  · have hlt := (div_lt_iff_lt_mul g.sector_pos).mp (lt_succ_of_le hsec)
    have hin := hlt.trans_le (g.sector_le (by omega))
    exact .inr (hrest h0 a ha hin hsame)
  · exact .inl ⟨decide_eq_true (h1.trans_lt h2), h1, by omega⟩

theorem eraseNext_ops (h : OpsOk s) : OpsOk s.eraseNext := by
  refine eraseIf_ops h fun hn => ?_
  have hn := of_decide_eq_true hn
  have hdvd := dvd_of_mod_eq_zero hn.2
  have hle := g.sector_le hn.1
  rw [Nat.succ_mul, Nat.div_mul_cancel hdvd] at hle
  exact ⟨hdvd, dvd_refl _, hle⟩

theorem eraseNext_blank (hrest : s.writeOffset % s.info.sectorSize ≠ 0 → s.flash.Blank a) (ha : s.writeOffset ≤ a)
    (hin : a < s.info.totalSize)
    (hsec : a / s.info.sectorSize = s.writeOffset / s.info.sectorSize) : s.eraseNext.flash.Blank a := by
  apply eraseIf_blank
  by_cases h0 : s.writeOffset % s.info.sectorSize = 0
  · have hlt := g.lt_sector a
    rw [hsec, Nat.succ_mul, Nat.div_mul_cancel (Nat.dvd_of_mod_eq_zero h0)] at hlt
    exact .inl ⟨decide_eq_true ⟨by omega, h0⟩, ha, hlt⟩
  · exact .inr (hrest h0)

end

/-- What a write starts from: behind the cursor the current sector is blank. -/
structure Tail (crc : Bytes → Bytes → UInt16) (s : FlashLog) : Prop where
  le : s.writeOffset ≤ s.info.totalSize
  stored : s.flash.read 0 s.writeOffset = s.image crc
  fits : ∀ r ∈ s.records, r.2 ≠ [] ∧ headerSize + r.2.length ≤ ringSize ∧
    s.info.writeLen r.2.length ≤ ringSize
  ops : OpsOk s
  rest : s.writeOffset % s.info.sectorSize ≠ 0 → ∀ a, s.writeOffset ≤ a → a < s.info.totalSize →
    a / s.info.sectorSize = s.writeOffset / s.info.sectorSize → s.flash.Blank a

/-- What a write leaves: the sector under the cursor is blank from the cursor on. -/
structure Good (crc : Bytes → Bytes → UInt16) (s : FlashLog) : Prop extends Tail crc s where
  blank : ∀ a, s.writeOffset ≤ a → a < s.info.totalSize →
    a / s.info.sectorSize = s.writeOffset / s.info.sectorSize → s.flash.Blank a

theorem store_mem (g : Geometry s.info) (hpos : 0 < writeLen)
    (hfit : s.writeOffset + writeLen ≤ s.info.totalSize) (ha : a < s.writeOffset) :
    (s.store crc tick data writeLen).flash.mem a = s.flash.mem a := by
  have hroom := g.room
  have hlt : a < sz (s.writeOffset + writeLen) := by
    rw [sz_of_lt (by omega)]
    omega
  have hstart := ha.trans_le (le_eraseStart g (by omega)).1
  have h1 : (s.eraseAhead writeLen).flash.mem a = s.flash.mem a := eraseIf_mem hstart
  rw [← h1]
  have h2 : ((s.eraseAhead writeLen).append crc tick data writeLen).flash.mem a =
      (s.eraseAhead writeLen).flash.mem a :=
    Flash.mem_program_of_not fun hin => absurd hin.1 (not_le.mpr ha)
  rw [← h2]
  exact eraseIf_mem hlt

section Append

variable (tick : UInt32) (hbuf : headerSize + data.length ≤ ringSize)
  (hring : writeLen ≤ ringSize)
  (hblank : ∀ a, Flash.Within s.writeOffset writeLen a → s.flash.Blank a)

include hbuf hring hblank

theorem append_stored (hlen : writeLen = s.info.writeLen data.length)
    (hsz : sz (s.writeOffset + writeLen) = s.writeOffset + writeLen)
    (hst : s.flash.read 0 s.writeOffset = s.image crc) :
    (s.append crc tick data writeLen).flash.read 0 (s.append crc tick data writeLen).writeOffset =
      (s.append crc tick data writeLen).image crc := by
  have hl := frameBuf_length crc tick hbuf hring
  set s' := s.append crc tick data writeLen
  have hnew : s'.flash.read s.writeOffset writeLen = frameBuf crc tick data writeLen := by
    have h := Flash.Blank.read_program s.writeOffset
      (frameBuf crc tick data writeLen) (by rw [hl]; exact hblank)
    rw [hl] at h
    exact h
  have hold : s'.flash.read 0 s.writeOffset = s.flash.read 0 s.writeOffset := by
    refine Flash.read_congr fun a ha => Flash.mem_program_of_not fun hin => ?_
    exact absurd hin.1 (not_le.mpr (zero_add s.writeOffset ▸ ha.2))
  change s'.flash.read 0 (sz (s.writeOffset + writeLen)) =
    List.flatMap _ (s.records ++ [(tick, data)])
  rw [hsz, Flash.read_add, zero_add, hold, hnew, hst, flatMap_append, flatMap_singleton, hlen]
  rfl

theorem append_ops (h : OpsOk s) (hfit : s.writeOffset + writeLen ≤ s.info.totalSize) :
    OpsOk (s.append crc tick data writeLen) := by
  have hl := frameBuf_length crc tick hbuf hring
  refine forall_mem_append.mpr ⟨h, forall_mem_singleton.mpr ?_⟩
  refine ⟨all_eq_true.mpr fun i hi => ?_, ?_⟩
  · rw [hl] at hi
    have hb := hblank (s.writeOffset + i)
      ⟨Nat.le_add_right .., Nat.add_lt_add_left (mem_range.mp hi) _⟩
    rw [hb.2]
    rfl
  · rw [hl]
    exact hfit

end Append

theorem Tail.eraseAhead (t : Tail crc s) (g : Geometry s.info) (hpos : 0 < writeLen)
    (hfit : s.writeOffset + writeLen ≤ s.info.totalSize) : Tail crc (s.eraseAhead writeLen) where
  le := t.le
  stored := by
    refine .trans (Flash.read_congr fun a ha => eraseIf_mem ?_) t.stored
    have := (le_eraseStart g (by omega)).1
    have : a < 0 + s.writeOffset := ha.2
    omega
  fits := t.fits
  ops := eraseAhead_ops g t.ops hpos hfit
  rest h0 a ha hin hsec := eraseIf_blank (.inr (t.rest h0 a ha hin hsec))

theorem Tail.store (t : Tail crc s) (g : Geometry s.info) (tick : UInt32) (hdata : data ≠ []) (hbuf : headerSize + data.length ≤ ringSize)
    (hlen : writeLen = s.info.writeLen data.length) (hring : writeLen ≤ ringSize)
    (hfit : s.writeOffset + writeLen ≤ s.info.totalSize) :
    Good crc (s.store crc tick data writeLen) := by
  have hle := (g.writeLen_spec hbuf).2
  have hroom := g.room
  have hs := g.sector_pos
  have hpos : 0 < writeLen := by
    have : headerSize = 10 := rfl
    omega
  have hsz : sz (s.writeOffset + writeLen) = s.writeOffset + writeLen := sz_of_lt (by omega)
  have hblank := fun a => @eraseAhead_blank s writeLen a g hpos hring hfit t.rest
  -- the frame's own bytes
  have hin : ∀ a, Flash.Within s.writeOffset writeLen a → (s.eraseAhead writeLen).flash.Blank a :=
    fun a ha => hblank a ha.1 (Nat.div_le_div_right (by have := ha.2; omega))
  have ht := t.eraseAhead g hpos hfit
  have hrest : ∀ a, (s.writeOffset + writeLen) % s.info.sectorSize ≠ 0 → s.writeOffset + writeLen ≤ a →
      a / s.info.sectorSize = (s.writeOffset + writeLen) / s.info.sectorSize →
        ((s.eraseAhead writeLen).append crc tick data writeLen).flash.Blank a := by
    intro a h0 ha hsec
    have hlast : (s.writeOffset + writeLen) / s.info.sectorSize ≤
        (s.writeOffset + writeLen - 1) / s.info.sectorSize := by
      rw [le_div_iff_mul_le hs]
      have := div_add_mod' (s.writeOffset + writeLen) s.info.sectorSize
      omega
    refine (hblank a (by omega) (hsec ▸ hlast)).program fun hw => ?_
    rw [frameBuf_length crc tick hbuf hring] at hw
    exact absurd hw.2 (not_lt.mpr ha)
  have hblank' : ∀ a, s.writeOffset + writeLen ≤ a → a < s.info.totalSize →
      a / s.info.sectorSize = (s.writeOffset + writeLen) / s.info.sectorSize →
        (s.store crc tick data writeLen).flash.Blank a := by
    rw [← hsz] at hrest ⊢
    exact fun a ha hlt hsec =>
      eraseNext_blank (s := (s.eraseAhead writeLen).append crc tick data writeLen) g
        (fun h0 => hrest a h0 ha hsec) ha hlt hsec
  have hst' := append_stored (s := s.eraseAhead writeLen) tick hbuf hring hin hlen hsz
    ht.stored
  have hoff : (s.store crc tick data writeLen).writeOffset = s.writeOffset + writeLen := hsz
  refine ⟨⟨?_, ?_, ?_, ?_, ?_⟩, ?_⟩
  · rw [hoff]
    exact hfit
  · refine .trans (Flash.read_congr fun a ha => eraseIf_mem ?_) hst'
    rw [← zero_add ((s.eraseAhead writeLen).append crc tick data writeLen).writeOffset]
    exact ha.2
  · exact forall_mem_append.mpr ⟨t.fits, forall_mem_singleton.mpr ⟨hdata, hbuf, hlen ▸ hring⟩⟩
  · exact eraseNext_ops g (append_ops tick hbuf hring hin ht.ops hfit)
  · rw [hoff]
    exact fun _ => hblank'
  · rw [hoff]
    exact hblank'

theorem Tail.wrap (t : Tail crc s) (g : Geometry s.info) (writeLen : Nat) (hring : writeLen ≤ ringSize)
    (hle : writeLen ≤ s.info.totalSize) : Tail crc (s.wrap writeLen) ∧ (s.wrap writeLen).info = s.info ∧
      (s.wrap writeLen).writeOffset + writeLen ≤ (s.wrap writeLen).info.totalSize := by
  have hroom := g.room
  have hw := t.le
  unfold FlashLog.wrap
  split
  · refine ⟨⟨zero_le _, rfl, fun r hr => (not_mem_nil hr).elim, t.ops, fun h0 => ?_⟩, rfl, ?_⟩
    · exact absurd (zero_mod _) h0
    · rw [zero_add]
      exact hle
  · rename_i hfit
    rw [sz_of_lt (by omega)] at hfit
    exact ⟨t, rfl, not_lt.mp hfit⟩

/-- A record is refused, or stored behind the cursor or from the start on. -/
theorem writeRecord_cases {err : Err} (hw : s.writeRecord crc tick data = some (err, s')) :
    err ≠ .ok ∧ s' = s ∨ err = .ok ∧
      (data ≠ [] ∧ headerSize + data.length ≤ ringSize ∧ s.info.writeLen data.length ≤ ringSize ∧
        s.info.writeLen data.length ≤ s.info.totalSize) ∧
      s' = (s.wrap (s.info.writeLen data.length)).store crc tick data (s.info.writeLen data.length) := by
  unfold FlashLog.writeRecord at hw
  dsimp only at hw
  split at hw
  · cases hw
    exact .inl ⟨nofun, rfl⟩
  rename_i hdata
  split at hw
  · cases hw
    exact .inl ⟨nofun, rfl⟩
  rename_i hlong
  split at hw
  · cases hw
  rename_i hbuf
  cases hw
  exact .inr ⟨rfl, ⟨hdata, by omega, by omega, by omega⟩, rfl⟩

theorem Good.writeRecord (h : Good crc s) (g : Geometry s.info) {err : Err}
    (hw : s.writeRecord crc tick data = some (err, s')) : Good crc s' ∧ s'.info = s.info := by
  rcases writeRecord_cases hw with ⟨-, rfl⟩ | ⟨-, ⟨hdata, hbuf, hring, hle⟩, rfl⟩
  · exact ⟨h, rfl⟩
  obtain ⟨ht, hinfo, hfit⟩ := h.toTail.wrap g _ hring hle
  exact ⟨ht.store (by rw [hinfo]; exact g) tick hdata hbuf (by rw [hinfo]) hring hfit, hinfo⟩

/-! ## Recovery -/

theorem frameBuf_eq (crc : Bytes → Bytes → UInt16) (tick : UInt32)
    (hle : headerSize + data.length ≤ writeLen) :
    ∃ pad, frameBuf crc tick data writeLen = frame crc tick data ++ pad := by
  unfold frameBuf
  rw [take_append, take_of_length_le (by rw [frame_length]; exact hle)]
  exact ⟨_, rfl⟩

/-- The header of a frame that is there, and its payload. -/
theorem read_frame (hle : headerSize + data.length ≤ writeLen)
    (hread : s.flash.read offset writeLen = frameBuf crc tick data writeLen) :
    s.flash.read offset headerSize = head (.ofNat data.length) tick ++
        toLe16 (crc (head (.ofNat data.length) tick) data) ∧
      s.flash.read (offset + headerSize) data.length = data := by
  obtain ⟨pad, hpad⟩ := frameBuf_eq crc tick hle
  rw [hpad] at hread
  have h1 := s.flash.read_slice offset (n := writeLen) (k := 0) (m := headerSize) (by omega)
  have h2 := s.flash.read_slice offset hle
  rw [hread, frame, append_assoc] at h1 h2
  constructor
  · exact h1.trans (slice_append [] (head _ tick ++ toLe16 _) (data ++ pad))
  · rw [← append_assoc] at h2
    exact h2.trans (slice_append (head _ tick ++ toLe16 _) data pad)

theorem header_fields (len : UInt16) (tick : UInt32) (c : UInt16) :
    le16At (head len tick ++ toLe16 c) 0 = magic ∧ le16At (head len tick ++ toLe16 c) 2 = len ∧
      le16At (head len tick ++ toLe16 c) 8 = c ∧ (head len tick ++ toLe16 c).take 8 = head len tick := by
  refine ⟨?_, ?_, ?_, rfl⟩
  · exact le16At_append [] (toLe16 len ++ toLe32 tick ++ toLe16 c) magic
  · exact le16At_append (toLe16 magic) (toLe32 tick ++ toLe16 c) len
  · have h := le16At_append (head len tick) [] c
    rw [append_nil] at h
    exact h

/-- One round of the walk at a frame that is there. -/
theorem recoverLoop_frame (g : Geometry s.info) (hdata : data ≠ [])
    (hbuf : headerSize + data.length ≤ ringSize)
    (hread : s.flash.read offset (s.info.writeLen data.length) =
      frameBuf crc tick data (s.info.writeLen data.length))
    (hfit : offset + s.info.writeLen data.length ≤ s.info.totalSize) (fuel frames : Nat) :
    s.recoverLoop crc (fuel + 1) offset frames =
      s.recoverLoop crc fuel (offset + s.info.writeLen data.length) (frames + 1) := by
  obtain ⟨heq, hle⟩ := g.writeLen_spec hbuf
  have hroom := g.room
  have hring : ringSize = 512 := rfl
  obtain ⟨hhead, hpay⟩ := read_frame hle hread
  have hlen : (ofNat data.length).toNat = data.length :=
    toNat_ofNat_of_lt (show data.length < 65536 by omega)
  obtain ⟨h0, h2, h8, h8'⟩ := header_fields (.ofNat data.length) tick
    (crc (head (.ofNat data.length) tick) data)
  have hpos : data.length ≠ 0 := fun h => hdata (eq_nil_of_length_eq_zero h)
  rw [recoverLoop]
  dsimp only
  rw [sz_of_lt (by omega), if_pos (by omega), hhead, h0, h2, h8, h8', hlen,
    if_neg (not_not.mpr rfl), if_neg hpos, sz_of_lt (by omega), if_neg (by omega), hpay,
    if_neg (not_not.mpr rfl), ← heq, sz_of_lt (by omega)]

theorem recoverLoop_frames (g : Geometry s.info) (rs : List (UInt32 × Bytes))
    (hfits : ∀ r ∈ rs, r.2 ≠ [] ∧ headerSize + r.2.length ≤ ringSize ∧
      s.info.writeLen r.2.length ≤ ringSize) {offset n : Nat} (hread : s.flash.read offset n =
      rs.flatMap fun r => frameBuf crc r.1 r.2 (s.info.writeLen r.2.length))
    (hfit : offset + n ≤ s.info.totalSize) (fuel frames : Nat) :
    rs.length ≤ n ∧ s.recoverLoop crc (fuel + rs.length) offset frames =
      s.recoverLoop crc fuel (offset + n) (frames + rs.length) := by
  induction rs generalizing offset n frames with
  | nil =>
    have hn : n = 0 := by
      have := congrArg List.length hread
      rw [Flash.read_length] at this
      exact this
    subst hn
    exact ⟨le_refl 0, rfl⟩
  | cons r rs ih =>
    obtain ⟨tick, data⟩ := r
    obtain ⟨hdata, hbuf, hring⟩ := hfits _ mem_cons_self
    dsimp only at hdata hbuf hring
    have hl := frameBuf_length crc tick hbuf hring
    have hle := (g.writeLen_spec hbuf).2
    have hh : headerSize = 10 := rfl
    simp only [flatMap_cons] at hread
    -- the frame is the first part of what is read
    have hn : s.info.writeLen data.length ≤ n := by
      have := congrArg List.length hread
      rw [Flash.read_length, length_append, hl] at this
      omega
    obtain ⟨m, rfl⟩ := Nat.exists_eq_add_of_le hn
    rw [Flash.read_add] at hread
    obtain ⟨h1, h2⟩ := append_inj hread (by rw [Flash.read_length, hl])
    obtain ⟨ih1, ih2⟩ := ih (fun r hr => hfits r (mem_cons_of_mem _ hr)) h2 (by omega) (frames + 1)
    refine ⟨by rw [length_cons]; omega, ?_⟩
    rw [length_cons, ← add_assoc, recoverLoop_frame g hdata hbuf h1 (by omega), ih2]
    congr 1
    · omega
    · omega

/-- The walk stops at a byte that is erased: no magic starts with `0xFF`. -/
theorem recoverLoop_stop (crc : Bytes → Bytes → UInt16) (g : Geometry s.info) (hle : offset ≤ s.info.totalSize)
    (hmem : offset < s.info.totalSize → s.flash.mem offset = 0xFF) (fuel frames : Nat) :
    ∃ dirty, s.recoverLoop crc (fuel + 1) offset frames = some (offset, frames, dirty) ∧
      (dirty = true → ∃ a, offset ≤ a ∧ a < s.info.totalSize ∧ s.flash.mem a ≠ 0xFF) := by
  have hroom := g.room
  have hh : headerSize = 10 := rfl
  have hring : ringSize = 512 := rfl
  rw [recoverLoop]
  dsimp only
  rw [sz_of_lt (by omega)]
  split
  · rename_i hin
    have hmagic : le16At (s.flash.read offset headerSize) 0 ≠ magic := by
      intro h
      have hb : byteAt (s.flash.read offset headerSize) 0 = 0xFF := hmem (by omega)
      have := congrArg UInt16.toUInt8 h
      rw [le16At, le16_toUInt8, hb] at this
      exact absurd this (by decide)
    rw [if_pos hmagic]
    refine ⟨_, rfl, fun hd => ?_⟩
    obtain ⟨x, hx, hne⟩ := any_eq_true.mp hd
    obtain ⟨i, hi, rfl⟩ := mem_map.mp hx
    have hi := mem_range.mp hi
    exact ⟨offset + i, Nat.le_add_right .., by omega, of_decide_eq_true hne⟩
  · exact ⟨false, rfl, fun hd => by cases hd⟩

/-- Where recovery puts the cursor. -/
theorem Good.recover (h : Good crc s) (g : Geometry s.info) :
    ∃ offset, s.writeOffset ≤ offset ∧ offset ≤ s.info.totalSize ∧
      (FlashLog.mk s.info 0 s.flash [] []).recover crc =
        some (s.records.length, ⟨s.info, offset, s.flash, [], []⟩) := by
  have hroom := g.room
  have hs := g.sector_pos
  have hle := h.le
  obtain ⟨hlen, hwalk⟩ := recoverLoop_frames (s := ⟨s.info, 0, s.flash, [], []⟩) g s.records h.fits
    h.stored (by rw [zero_add]; exact hle) (s.info.totalSize - s.records.length + 1) 0
  have hff : s.writeOffset < s.info.totalSize → s.flash.mem s.writeOffset = 0xFF :=
    fun hlt => (h.blank _ (le_refl _) hlt rfl).1
  obtain ⟨dirty, hstop, hdirty⟩ := recoverLoop_stop (s := ⟨s.info, 0, s.flash, [], []⟩) crc g hle
    hff (s.info.totalSize - s.records.length) s.records.length
  rw [zero_add, zero_add, hstop, show s.info.totalSize - s.records.length + 1 +
    s.records.length = s.info.totalSize + 1 by omega] at hwalk
  unfold FlashLog.recover
  rw [hwalk]
  dsimp only
  cases dirty with
  | false =>
    refine ⟨s.writeOffset, le_refl _, hle, ?_⟩
    rw [if_neg Bool.false_ne_true, if_neg (not_lt.mpr hle)]
  | true =>
    -- the byte that is not erased lies in a later sector
    obtain ⟨a, ha, hin, hne⟩ := hdirty rfl
    change a < s.info.totalSize at hin
    have hsec : s.writeOffset / s.info.sectorSize < a / s.info.sectorSize := by
      by_contra hge
      exact hne (h.blank a ha hin (le_antisymm (not_lt.mp hge) (Nat.div_le_div_right ha))).1
    have hend : (s.writeOffset / s.info.sectorSize + 1) * s.info.sectorSize ≤ a :=
      (le_div_iff_mul_le hs).mp hsec
    have hcur := g.lt_sector s.writeOffset
    have hnext := g.sector_le
      (a := (s.writeOffset / s.info.sectorSize + 1) * s.info.sectorSize) (by omega)
    rw [Nat.mul_div_cancel _ hs, Nat.succ_mul] at hnext
    have hsz : sz (s.writeOffset + s.info.sectorSize - 1) = s.writeOffset + s.info.sectorSize - 1 :=
      sz_of_lt (by omega)
    have hup := div_add_mod' (s.writeOffset + s.info.sectorSize - 1) s.info.sectorSize
    have hmod := mod_lt (s.writeOffset + s.info.sectorSize - 1) hs
    refine ⟨(s.writeOffset + s.info.sectorSize - 1) / s.info.sectorSize * s.info.sectorSize,
      by omega, by omega, ?_⟩
    rw [if_pos rfl, hsz, if_neg (by omega)]

theorem writeRecord_mem (g : Geometry s.info) (hw : s.writeRecord crc tick data = some (.ok, s'))
    (hfit : s.writeOffset + s.info.writeLen data.length ≤ s.info.totalSize) (ha : a < s.writeOffset) :
    s'.flash.mem a = s.flash.mem a := by
  have hroom := g.room
  rcases writeRecord_cases hw with ⟨hne, -⟩ | ⟨-, ⟨-, hbuf, -⟩, rfl⟩
  · exact absurd rfl hne
  have hlen := (g.writeLen_spec hbuf).2
  have hh : headerSize = 10 := rfl
  unfold FlashLog.wrap
  rw [sz_of_lt (by omega), if_neg (not_lt.mpr hfit)]
  exact store_mem g (by omega) hfit ha

theorem Good.recovers (h : Good crc s) (g : Geometry s.info)
    (hreg : register s.info s.flash = some ⟨s.info, 0, s.flash, [], []⟩) : Recovers crc s := by
  obtain ⟨offset, hle, htot, hrec⟩ := h.recover g
  refine ⟨h.stored, _, _, hreg, hrec, fun tick data s2 hw hfit a ha => ?_⟩
  exact writeRecord_mem (s := ⟨s.info, offset, s.flash, [], []⟩) g hw hfit
    (ha.trans_le hle)

end FlashLog

/-! ## Whole runs -/

theorem register_flash {info : Info} {flash : Flash} {s : FlashLog}
    (h : register info flash = some s) (flash' : Flash) :
    register info flash' = some ⟨info, 0, flash', [], []⟩ := by
  unfold register at h ⊢
  split at h
  · cases h
  split at h
  · cases h
  split at h
  · cases h
  rename_i h1 h2 h3
  rw [if_neg h1, if_neg h2, if_neg h3]

theorem flash_log_recovers (crc : Bytes → Bytes → UInt16) (info : Info)
    (hgran : info.align ∣ info.sectorSize) (hroom : info.totalSize + ringSize < 2 ^ 32) {s : FlashLog}
    (h : (system crc info).Reachable s) : (∀ op ∈ s.ops, op.Ok info) ∧ s.Recovers crc := by
  have hinv : (system crc info).IsInvariant fun s => s.Good crc ∧ s.info = info ∧
      ∃ s0, register info .erased = some s0 := by
    constructor
    · intro s h0
      obtain ⟨-, rfl⟩ := Geometry.of_register h0 hgran hroom
      refine ⟨⟨⟨zero_le _, rfl, fun r hr => (not_mem_nil hr).elim,
        fun op hm => (not_mem_nil hm).elim, fun _ _ _ _ _ => ⟨rfl, rfl⟩⟩,
        fun _ _ _ _ => ⟨rfl, rfl⟩⟩, rfl, _, h0⟩
    · rintro s record s' ⟨hs, hinfo, s0, h0⟩ hn
      obtain ⟨⟨err, s1⟩, hw, rfl⟩ := map_eq_some_iff.mp hn
      obtain ⟨h1, h2⟩ := hs.writeRecord (hinfo ▸ (Geometry.of_register h0 hgran hroom).1) hw
      exact ⟨h1, h2.trans hinfo, s0, h0⟩
  obtain ⟨hs, rfl, s0, h0⟩ := hinv.holds h
  exact ⟨hs.ops, hs.recovers (Geometry.of_register h0 hgran hroom).1 (register_flash h0 _)⟩

def smallInfo : Info := ⟨64, 32, 4⟩

/-- Three records over the end of the first sector, and a fourth that wraps. -/
theorem flash_log_recovers_wrapped :
    smallInfo.align ∣ smallInfo.sectorSize ∧ smallInfo.totalSize + ringSize < 2 ^ 32 ∧
      ∃ s, (system (fun _ _ => 0) smallInfo).Reachable s ∧
        (s.records.length = 1 ∧ s.writeOffset = 16 ∧ s.ops.length = 8) ∧
          (∀ op ∈ s.ops, op.Ok smallInfo) ∧ s.Recovers fun _ _ => 0 := by
  obtain ⟨s, hs, hp⟩ := LTS.Reachable.of_create (register smallInfo .erased)
    (next fun _ _ => 0) (fun _ _ => True)
    [(1, [65, 66, 67, 68, 69, 70]), (2, [65, 66, 67, 68, 69]), (3, [65, 66, 67, 68, 69, 70, 71, 72]),
      (4, [65, 66, 67, 68, 69, 70])]
    (fun s => s.records.length = 1 ∧ s.writeOffset = 16 ∧ s.ops.length = 8) (by decide +kernel)
  exact ⟨by decide, by decide, s, hs.of_restrict, hp,
    flash_log_recovers _ _ (by decide) (by decide) hs.of_restrict⟩

/-- A partition that one record fills: the next write wraps and erases it. -/
theorem flash_log_overwrites_full :
    ¬ ∀ (crc : Bytes → Bytes → UInt16) (info : Info), info.align ∣ info.sectorSize →
      ∀ s, (system crc info).Reachable s → (∀ op ∈ s.ops, op.Ok info) ∧
        ∃ s₀ s₁, register s.info s.flash = some s₀ ∧ s₀.recover crc = some (s.records.length, s₁) ∧
          ∀ tick data s₂, s₁.writeRecord crc tick data = some (.ok, s₂) →
            ∀ a < s.writeOffset, s₂.flash.mem a = s.flash.mem a := by
  intro h
  obtain ⟨s, hs, hoff, hold, hnew⟩ := LTS.Reachable.of_create
    (register ⟨16, 16, 1⟩ .erased) (next fun _ _ => 0) (fun _ _ => True)
    [(1, [65, 66, 67, 68, 69, 70])]
    (fun s => s.writeOffset = 16 ∧ s.flash.mem 4 = 1 ∧
      (((register s.info s.flash).bind (·.recover fun _ _ => 0)).bind
        (·.2.writeRecord (fun _ _ => 0) 2 [65])).any fun r => r.1 = .ok ∧ r.2.flash.mem 4 = 2)
    (by decide +kernel)
  obtain ⟨-, s₀, s₁, hreg, hrec, hnext⟩ := h _ ⟨16, 16, 1⟩ (by decide) s hs.of_restrict
  rw [hreg, bind_some, hrec, bind_some] at hnew
  obtain ⟨⟨err, s₂⟩, hw, hr⟩ := (any_eq_true _ _).mp hnew
  obtain ⟨hok, hmem⟩ := of_decide_eq_true hr
  cases hok
  have := hnext 2 [65] s₂ hw 4 (by rw [hoff]; decide)
  rw [hold] at this
  exact absurd (hmem.symm.trans this) (by decide)

end MiniTree.Log
