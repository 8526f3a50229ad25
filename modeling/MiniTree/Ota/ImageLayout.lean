import MiniTree.Core.Tiling
import MiniTree.Ota.Image

/-!
# Packing and parsing an image

The writer appends the fields in order; the reader computes their offsets from the lengths
in the trailing meta. Both meet in the list of spans of a layout: it tiles the buffer, and
a part of the written bytes is what the reader finds at its span.

**Results.** `imageParse_inverse`: what `make_image` writes, `image_parse` gives back, and
on any buffer it accepts the fields lie in bounds, apart from each other, and cover it.
-/

namespace MiniTree.Ota

open MiniTree.Core List Nat Option

attribute [local simp] imageFields imageCrcLen

variable {version aux tag : Bytes} {m : ImageMeta} {off : Nat}

section
variable (mode : ImageCheck) (isFront : Bool)

theorem ImageCheck.ofCode_code :
    ofCode ((mode.code ||| if isFront then 0x80 else 0) &&& 0x7F) = some mode := by
  cases mode <;> cases isFront <;> rfl

theorem ImageCheck.front_code :
    decide ((mode.code ||| if isFront then 0x80 else 0) &&& 0x80 ≠ 0) = isFront := by
  cases mode <;> cases isFront <;> rfl

theorem toNat_ofNat_of_le {n : Nat} (h : n ≤ 255) : (UInt8.ofNat n).toNat = n := by
  rw [UInt8.toNat_ofNat']
  omega

theorem imageMetaBytes_length (version tag : Bytes) :
    (imageMetaBytes mode isFront version tag).length = imageMetaLen := rfl

theorem metaDecode_metaBytes (hv : version.length ≤ 255) (ht : tag.length ≤ 255) (body : Bytes) :
    metaDecode (body ++ imageMetaBytes mode isFront version tag) body.length =
      .ok ⟨mode, isFront, version.length, tag.length⟩ := by
  set buf := body ++ imageMetaBytes mode isFront version tag
  have h0 : byteAt buf body.length = imageMetaMagic := byteAt_append body _ 0
  have h1 : byteAt buf (body.length + 1) = mode.code ||| if isFront then 0x80 else 0 :=
    byteAt_append body _ 1
  have h2 : byteAt buf (body.length + 2) = .ofNat version.length := byteAt_append body _ 2
  have h3 : byteAt buf (body.length + 3) = .ofNat tag.length := byteAt_append body _ 3
  simp only [metaDecode, h0, h1, h2, h3, ne_eq, not_true_eq_false, if_false,
    ImageCheck.ofCode_code, toNat_ofNat_of_le hv, toNat_ofNat_of_le ht]
  exact congrArg (fun b => Except.ok (ImageMeta.mk mode b version.length tag.length))
    (ImageCheck.front_code mode isFront)

/-- Lengths of one byte never reach the overflow test. -/
theorem imageOverhead_eq {versionLen tagLen : Nat} (hv : versionLen ≤ 255)
    (ht : tagLen ≤ 255) : imageOverhead mode versionLen tagLen =
      .ok (imageCrcLen + imageMetaLen + versionLen + tagLen + imageAuxLen mode) := by
  have haux : imageAuxLen mode ≤ 48 := by cases mode <;> decide
  unfold imageOverhead
  rw [if_neg]
  simp only [sizeMax, imageCrcLen, imageMetaLen]
  omega

end

theorem le32At_slice (img : Bytes) (off : Nat) : le32At (slice img off imageCrcLen) 0 = le32At img off := by
  unfold le32At imageCrcLen
  simp (disch := decide) only [Nat.zero_add, Nat.add_zero, byteAt_slice]

variable {buf : Bytes}

theorem metaDecode_lengths
    (h : metaDecode buf off = .ok m) : m.versionLen ≤ 255 ∧ m.tagLen ≤ 255 := by
  unfold metaDecode at h
  split at h
  · cases h
  split at h
  · cases h
  · cases h
    exact ⟨le_of_lt_succ (UInt8.toNat_lt _), le_of_lt_succ (UInt8.toNat_lt _)⟩

/-- `image_parse` as one condition: the meta decodes and the overhead fits. -/
theorem imageParse_eq {overhead : Nat} (hm : metaDecode buf (buf.length - imageMetaLen) = .ok m)
    (ho : imageOverhead m.mode m.versionLen m.tagLen = .ok overhead)
    (hlen : imageCrcLen + imageMetaLen ≤ buf.length) (hfit : overhead ≤ buf.length) :
    imageParse buf = .ok (imageFields m (buf.length - overhead) (le32At buf)).2 := by
  unfold imageParse
  rw [if_neg (not_lt.mpr hlen), hm]
  show (imageOverhead m.mode m.versionLen m.tagLen >>= _) = _
  rw [ho]
  show (if buf.length < overhead then _ else _) = _
  rw [if_neg (not_lt.mpr hfit)]

theorem imageParse_ok {v : ImageView} (h : imageParse buf = .ok v) :
    ∃ m, metaDecode buf (buf.length - imageMetaLen) = .ok m ∧
      imageCrcLen + imageMetaLen + m.versionLen + m.tagLen + imageAuxLen m.mode ≤ buf.length ∧
      v = (imageFields m (buf.length - (imageCrcLen + imageMetaLen + m.versionLen + m.tagLen +
        imageAuxLen m.mode)) (le32At buf)).2 := by
  unfold imageParse at h
  split at h
  · cases h
  cases hm : metaDecode buf (buf.length - imageMetaLen) with
  | error e => rw [hm] at h; cases h
  | ok m =>
    have hb := metaDecode_lengths hm
    rw [hm] at h
    change (imageOverhead m.mode m.versionLen m.tagLen >>= _) = _ at h
    rw [imageOverhead_eq m.mode hb.1 hb.2] at h
    change (if buf.length < _ then _ else _) = _ at h
    split at h
    · cases h
    · rename_i hfit
      cases h
      exact ⟨m, rfl, Nat.le_of_not_lt hfit, rfl⟩

/-! ## Reading back what was written -/

theorem Packer.aux_length (k : Packer) {mode : ImageCheck} {fw key macKey payload : Bytes}
    (h : k.payloadAux mode fw key macKey = some (payload, aux)) : aux.length = imageAuxLen mode := by
  cases mode with
  | crc => cases h; rfl
  | sha => cases h; exact k.sha_length fw
  | gcm =>
    obtain ⟨⟨p, n, t⟩, hr, he⟩ := map_eq_some_iff.mp h
    cases he
    rw [length_append, k.nonce_length hr, k.tag_length hr]
    rfl
  | cbc =>
    obtain ⟨⟨p, iv⟩, hr, he⟩ := map_eq_some_iff.mp h
    cases he
    exact k.iv_length hr
  | cbcSha =>
    obtain ⟨⟨p, iv⟩, hr, he⟩ := map_eq_some_iff.mp h
    cases he
    rw [length_append, k.iv_length hr, k.hmac_length]
    rfl

/-- The fields a view points at, out of the buffer it was made from. -/
structure Reads (img : Bytes) (v : ImageView) (mode : ImageCheck) (isFront : Bool)
    (version tag payload aux : Bytes) (crc : UInt32) : Prop where
  mode_eq : v.mode = mode
  front_eq : v.isFront = isFront
  version_eq : slice img v.version v.versionLen = version
  tag_eq : slice img v.tag v.tagLen = tag
  aux_eq : slice img v.aux v.auxLen = aux
  payload_eq : slice img v.payload v.payloadLen = payload
  crc_eq : v.crcStored = crc

theorem slice_part (a b c : Bytes) {n : Nat} (h : buf = a ++ b ++ c)
    (ho : off = a.length) (hn : n = b.length) : slice buf off n = b := by
  subst h ho hn
  exact slice_append a b c

theorem imageFields_reads {mode : ImageCheck} {isFront : Bool} {payload : Bytes}
    {crc : UInt32} (haux : aux.length = imageAuxLen mode) :
    Reads (imageBytes mode isFront version tag payload aux crc)
      (imageFields ⟨mode, isFront, version.length, tag.length⟩ payload.length
        (le32At (imageBytes mode isFront version tag payload aux crc))).2
      mode isFront version tag payload aux crc := by
  generalize hm : imageMetaBytes mode isFront version tag = m
  cases isFront with
  | true =>
    have hb : imageBytes mode true version tag payload aux crc =
        toLe32 crc ++ version ++ tag ++ aux ++ payload ++ m := by rw [← hm]; rfl
    rw [hb]
    exact ⟨rfl, rfl, slice_part (toLe32 crc) version (tag ++ aux ++ payload ++ m) (by simp) rfl rfl,
      slice_part (toLe32 crc ++ version) tag (aux ++ payload ++ m) (by simp)
        (by simp) rfl,
      slice_part (toLe32 crc ++ version ++ tag) aux (payload ++ m) (by simp)
        (by simp [add_assoc]) haux.symm,
      slice_part (toLe32 crc ++ version ++ tag ++ aux) payload m rfl
        (by simp [add_assoc, haux]) rfl,
      by simpa using le32At_append [] (version ++ tag ++ aux ++ payload ++ m) crc⟩
  | false =>
    have hb : imageBytes mode false version tag payload aux crc =
        payload ++ aux ++ version ++ tag ++ toLe32 crc ++ m := by rw [← hm]; rfl
    rw [hb]
    exact ⟨rfl, rfl, slice_part (payload ++ aux) version (tag ++ toLe32 crc ++ m) (by simp)
        (by simp [haux]) rfl,
      slice_part (payload ++ aux ++ version) tag (toLe32 crc ++ m) (by simp)
        (by simp [haux, add_assoc]) rfl,
      slice_part payload aux (version ++ tag ++ toLe32 crc ++ m) (by simp) rfl haux.symm,
      slice_part [] payload (aux ++ version ++ tag ++ toLe32 crc ++ m) (by simp) rfl rfl,
      by simpa [haux, add_assoc] using
        le32At_append (payload ++ aux ++ version ++ tag) m crc⟩

theorem imageBytes_length {mode : ImageCheck} (isFront : Bool) (version tag payload : Bytes)
    (crc : UInt32) (haux : aux.length = imageAuxLen mode) :
    (imageBytes mode isFront version tag payload aux crc).length = payload.length +
        (imageCrcLen + imageMetaLen + version.length + tag.length + imageAuxLen mode) := by
  have hcrc : (toLe32 crc).length = imageCrcLen := rfl
  cases isFront <;>
    simp only [imageBytes, length_append, imageMetaBytes_length, hcrc, haux, if_true,
      Bool.false_eq_true, if_false] <;>
    omega

theorem imageParse_imageBytes {mode : ImageCheck} (isFront : Bool) (payload : Bytes) (crc : UInt32)
    (hv : version.length ≤ 255) (ht : tag.length ≤ 255) (haux : aux.length = imageAuxLen mode) :
    ∃ v, imageParse (imageBytes mode isFront version tag payload aux crc) = .ok v ∧
      Reads (imageBytes mode isFront version tag payload aux crc) v mode isFront version tag payload
        aux crc := by
  have hlen := imageBytes_length isFront version tag payload crc haux
  set img := imageBytes mode isFront version tag payload aux crc with himg
  have hm : metaDecode img (img.length - imageMetaLen) =
      .ok ⟨mode, isFront, version.length, tag.length⟩ := by
    rw [himg, imageBytes, length_append, imageMetaBytes_length, Nat.add_sub_cancel]
    exact metaDecode_metaBytes mode isFront hv ht _
  have hfit : imageCrcLen + imageMetaLen + version.length + tag.length + imageAuxLen mode ≤
      img.length := by omega
  refine ⟨_, imageParse_eq hm (imageOverhead_eq mode hv ht) (by omega) hfit, ?_⟩
  rw [show img.length - (imageCrcLen + imageMetaLen + version.length + tag.length +
    imageAuxLen mode) = payload.length by omega]
  exact imageFields_reads haux

/-! ## The fields of an accepted buffer -/

/-- The spans of a parsed image, the CRC at `crc` and the meta at the end of `len` bytes. -/
def ImageView.spans (v : ImageView) (crc len : Nat) : List Span :=
  [(crc, imageCrcLen), (v.version, v.versionLen), (v.tag, v.tagLen), (v.aux, v.auxLen),
    (v.payload, v.payloadLen), (len - imageMetaLen, imageMetaLen)]

/-- The back layout in terms of the order of `spans`. -/
theorem perm_back (crc version tag aux payload end_ : Span) :
    [payload, aux, version, tag, crc, end_].Perm [crc, version, tag, aux, payload, end_] := by
  rw [perm_iff_count]
  intro s
  simp only [count_cons, count_nil]
  omega

/-- In one of the two orders the spans tile the buffer. -/
theorem imageFields_tiles (m : ImageMeta) (crcAt : Nat → UInt32) {len : Nat}
    (h : imageCrcLen + imageMetaLen + m.versionLen + m.tagLen + imageAuxLen m.mode ≤ len) :
    ∃ spans, Tiles 0 spans len ∧
      spans.Perm ((imageFields m (len - (imageCrcLen + imageMetaLen + m.versionLen + m.tagLen +
        imageAuxLen m.mode)) crcAt).2.spans (imageFields m (len - (imageCrcLen + imageMetaLen +
          m.versionLen + m.tagLen + imageAuxLen m.mode)) crcAt).1 len) := by
  generalize hp : len - (imageCrcLen + imageMetaLen + m.versionLen + m.tagLen +
    imageAuxLen m.mode) = payloadLen
  simp only [imageCrcLen, imageMetaLen] at h hp
  unfold imageFields
  cases m.isFront with
  | true =>
    refine ⟨_, ?_, List.Perm.refl _⟩
    simp only [ImageView.spans, Tiles, Span.stop, imageCrcLen, imageMetaLen, if_true, true_and]
    omega
  | false =>
    refine ⟨_, ?_, perm_back ..⟩
    simp only [Tiles, Span.stop, imageCrcLen, imageMetaLen, Bool.false_eq_true, if_false, true_and]
    omega

/-- The CRC the view carries is the one at the CRC's span. -/
theorem imageFields_crc (m : ImageMeta) (payloadLen : Nat) (crcAt : Nat → UInt32) :
    (imageFields m payloadLen crcAt).2.crcStored = crcAt (imageFields m payloadLen crcAt).1 := by
  unfold imageFields
  cases m.isFront <;> rfl

theorem imageParse_inverse : (∀ (k : Packer) (mode : ImageCheck) (isFront : Bool)
        (fw version tag key macKey payload aux : Bytes), version.length ≤ 255 → tag.length ≤ 255 →
      k.payloadAux mode fw key macKey = some (payload, aux) →
      ∃ img v, makeImage k fw version tag isFront mode key macKey = some img ∧
        imageParse img = .ok v ∧ Reads img v mode isFront version tag payload aux (k.crc payload)) ∧
    ∀ (buf : Bytes) (v : ImageView), imageParse buf = .ok v → ∃ crc, v.crcStored = le32At buf crc ∧
        (∀ s ∈ v.spans crc buf.length, s.stop ≤ buf.length) ∧
        (v.spans crc buf.length).Pairwise Span.Apart ∧
        ∀ i < buf.length, ∃ s ∈ v.spans crc buf.length, s.1 ≤ i ∧ i < s.stop := by
  constructor
  · intro k mode isFront fw version tag key macKey payload aux hv ht hpa
    obtain ⟨v, hv', hr⟩ := imageParse_imageBytes isFront payload (k.crc payload) hv ht
      (k.aux_length hpa)
    refine ⟨_, v, ?_, hv', hr⟩
    rw [makeImage, if_neg (by omega), hpa]
    rfl
  · intro buf v h
    obtain ⟨m, -, hfit, rfl⟩ := imageParse_ok h
    obtain ⟨spans, htiles, hperm⟩ := imageFields_tiles m (le32At buf) hfit
    refine ⟨_, imageFields_crc .., fun s hs => (htiles.bounds s (hperm.mem_iff.mpr hs)).2, ?_,
      fun i hi => ?_⟩
    · exact (hperm.pairwise_iff Span.Apart.symm).mp htiles.apart
    · obtain ⟨s, hs, hi'⟩ := htiles.cover (zero_le i) hi
      exact ⟨s, hperm.mem_iff.mp hs, hi'⟩

/-- A packer that leaves the firmware as it is, with zero nonces and digests. -/
def plainPacker : Packer where
  gcmEncrypt fw _ := some (fw, List.replicate 12 0, List.replicate 16 0)
  cbcEncrypt fw _ := some (fw, List.replicate 16 0)
  hmacSha256 _ _ := List.replicate 32 0
  sha256 _ := List.replicate 32 0
  crc data := data.foldl (fun c b => c + b.toUInt32) 0
  nonce_length h := by cases h; rfl
  tag_length h := by cases h; rfl
  iv_length h := by cases h; rfl
  hmac_length _ _ := rfl
  sha_length _ := rfl

theorem imageParse_inverse_plain :
    (∃ img v, makeImage plainPacker [7, 8, 9] [49] [50, 51] true .gcm [] [] = some img ∧
      imageParse img = .ok v ∧ Reads img v .gcm true [49] [50, 51] [7, 8, 9]
        (List.replicate 28 0) 24) ∧
    ∃ crc, (0x04030201 : UInt32) = le32At [1, 2, 3, 4, 0xA5, 0, 0, 0] crc := by
  refine ⟨imageParse_inverse.1 plainPacker .gcm true [7, 8, 9] [49] [50, 51] [] [] _ _ (by decide)
    (by decide) rfl, ?_⟩
  obtain ⟨crc, h, -⟩ := imageParse_inverse.2 [1, 2, 3, 4, 0xA5, 0, 0, 0]
    ⟨.crc, false, 0, 0, 0, 0, 0, 0, 0, 0, 0x04030201⟩ rfl
  exact ⟨crc, h⟩

end MiniTree.Ota
