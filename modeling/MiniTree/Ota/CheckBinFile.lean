import MiniTree.Ota.ImageLayout

/-!
# The inspection tool (`tools/check_bin_file.py`)

`_parse_image` cuts an image with slices of Python, `_diff_chunks` finds where two files differ.

**Results.** `parseImage_eq`: the tool takes the images that the device takes, and has the same
fields. `diffChunks_exact`: the blocks are exactly the differences, merged over short gaps.
-/

namespace MiniTree.Ota

open MiniTree.Core List

/-! ## `_parse_image` -/

/-- A bound of a slice of Python; a negative one counts from the end. -/
def pyBound (n : Nat) (i : Int) : Nat := min (if i < 0 then i + n else i).toNat n

/-- `data[i:j]` -/
def pySlice (data : Bytes) (i j : Int) : Bytes :=
  (data.take (pyBound data.length j)).drop (pyBound data.length i)

/-- mirrors check_bin_file.py:31 (`_IMAGE_AUX_LEN`) -/
def toolAuxLen : ImageCheck → Nat
  | .gcm => 12 + 16
  | .cbc => 16
  | .cbcSha => 16 + 32
  | .sha => 32
  | .crc => 0

@[ext] structure ParsedImage where
  mode : ImageCheck
  isFront : Bool
  crc : UInt32
  version : Bytes
  tag : Bytes
  aux : Bytes
  payload : Bytes

/-- The fields of an image without its meta.
mirrors check_bin_file.py:214-230 -/
def sliceBody (m : ImageMeta) (body : Bytes) : ParsedImage :=
  let versionLen : Int := m.versionLen
  let tagLen : Int := m.tagLen
  let overhead := 4 + versionLen + tagLen + toolAuxLen m.mode
  if m.isFront then
    { mode := m.mode
      isFront := true
      crc := le32At (pySlice body 0 4) 0
      version := pySlice body 4 (4 + versionLen)
      tag := pySlice body (4 + versionLen) (4 + versionLen + tagLen)
      aux := pySlice body (4 + versionLen + tagLen) overhead
      payload := pySlice body overhead body.length }
  else
    { mode := m.mode
      isFront := false
      crc := le32At (pySlice body (-4) body.length) 0
      version := pySlice body (-4 - tagLen - versionLen) (-4 - tagLen)
      tag := pySlice body (-4 - tagLen) (-4)
      aux := pySlice body (-overhead) (-4 - tagLen - versionLen)
      payload := pySlice body 0 (-overhead) }

/-- `none` where the tool exits.
mirrors check_bin_file.py:195-230 -/
def parseImage (data : Bytes) : Option ParsedImage :=
  if data.length < 8 then none
  else
    let m := pySlice data (-4) data.length
    if byteAt m 0 ≠ imageMetaMagic then none
    else match ImageCheck.ofCode (byteAt m 1 &&& 0x7F) with
      | none => none
      | some mode =>
        let versionLen := (byteAt m 2).toNat
        let tagLen := (byteAt m 3).toNat
        let body := pySlice data 0 (-4)
        if body.length < 4 + versionLen + tagLen + toolAuxLen mode then none
        else some (sliceBody ⟨mode, byteAt m 1 &&& 0x80 ≠ 0, versionLen, tagLen⟩ body)

/-- What a view of `image_parse` points at. -/
def ImageView.parsed (v : ImageView) (data : Bytes) : ParsedImage :=
  ⟨v.mode, v.isFront, v.crcStored, slice data v.version v.versionLen, slice data v.tag v.tagLen,
    slice data v.aux v.auxLen, slice data v.payload v.payloadLen⟩

section
variable {data : Bytes} {i j : Int} {off n : Nat}

theorem pySlice_eq (hi : pyBound data.length i = off) (hj : pyBound data.length j = off + n) :
    pySlice data i j = slice data off n := by
  rw [pySlice, hi, hj, drop_take, Nat.add_sub_cancel_left]
  rfl

theorem body_eq : pySlice data 0 (-4) = data.take (data.length - 4) := by
  have hi : pyBound data.length 0 = 0 := by unfold pyBound; omega
  have hj : pyBound data.length (-4) = 0 + (data.length - 4) := by unfold pyBound; omega
  exact pySlice_eq hi hj

theorem body_length : (pySlice data 0 (-4)).length = data.length - 4 := by
  rw [body_eq, length_take, Nat.min_eq_left (Nat.sub_le ..)]

/-- A slice of an image without its meta. -/
theorem pySlice_body (hi : pyBound (data.length - 4) i = off)
    (hj : pyBound (data.length - 4) j = off + n) :
    pySlice (pySlice data 0 (-4)) i j = slice data off n := by
  have hn : off + n ≤ data.length - 4 := hj ▸ Nat.min_le_right ..
  rw [pySlice_eq (by rw [body_length, hi]) (by rw [body_length, hj]), body_eq, slice, drop_take,
    take_take, Nat.min_eq_left (by omega)]
  rfl

theorem toolAuxLen_eq (mode : ImageCheck) : toolAuxLen mode = imageAuxLen mode := by
  cases mode <;> rfl

/-- The slices are the fields that `image_parse` points at. -/
theorem sliceBody_eq (m : ImageMeta)
    (hfit : 4 + 4 + m.versionLen + m.tagLen + imageAuxLen m.mode ≤ data.length) :
    sliceBody m (pySlice data 0 (-4)) = (imageFields m (data.length -
      (4 + 4 + m.versionLen + m.tagLen + imageAuxLen m.mode)) (le32At data)).2.parsed data := by
  obtain ⟨mode, isFront, versionLen, tagLen⟩ := m
  dsimp only at hfit
  simp only [sliceBody, imageFields, ImageView.parsed, body_length, imageCrcLen, toolAuxLen_eq]
  cases isFront with
  | true =>
    have hcrc : pySlice (pySlice data 0 (-4)) 0 4 = slice data 0 imageCrcLen :=
      pySlice_body (by unfold pyBound; omega) (by unfold pyBound imageCrcLen; omega)
    refine ParsedImage.ext rfl rfl ?_ ?_ ?_ ?_ ?_ <;> simp only [if_true]
    · rw [hcrc, le32At_slice]
    all_goals exact pySlice_body (by unfold pyBound; omega) (by unfold pyBound; omega)
  | false =>
    have hcrc : pySlice (pySlice data 0 (-4)) (-4) (data.length - 4 : Nat) =
        slice data (data.length - 8) imageCrcLen :=
      pySlice_body (by unfold pyBound; omega) (by unfold pyBound imageCrcLen; omega)
    refine ParsedImage.ext rfl rfl ?_ ?_ ?_ ?_ ?_ <;> simp only [Bool.false_eq_true, if_false]
    · rw [hcrc, le32At_slice]
      exact congrArg _ (by omega)
    all_goals exact pySlice_body (by unfold pyBound; omega) (by unfold pyBound; omega)

end

theorem parseImage_eq (data : Bytes) :
    parseImage data = (imageParse data).toOption.map (·.parsed data) := by
  have hm : pySlice data (-4) data.length = slice data (data.length - 4) (min data.length 4) :=
    pySlice_eq (by unfold pyBound; omega) (by unfold pyBound; omega)
  unfold parseImage imageParse
  by_cases h8 : data.length < 8
  · rw [if_pos h8, if_pos (show data.length < imageCrcLen + imageMetaLen from h8)]
    rfl
  rw [Nat.min_eq_right (by omega)] at hm
  rw [if_neg h8, if_neg (show ¬ data.length < imageCrcLen + imageMetaLen from h8)]
  unfold metaDecode
  simp only [hm, byteAt_slice, Nat.reduceLT, Nat.add_zero, body_length, toolAuxLen_eq,
    show imageMetaLen = 4 from rfl]
  split
  · rfl
  cases ImageCheck.ofCode (byteAt data (data.length - 4 + 1) &&& 0x7F) with
  | none => rfl
  | some mode =>
    have hv := UInt8.toNat_lt (byteAt data (data.length - 4 + 2))
    have ht := UInt8.toNat_lt (byteAt data (data.length - 4 + 3))
    change _ = Option.map _ (imageOverhead mode _ _ >>= _).toOption
    rw [imageOverhead_eq mode (Nat.le_of_lt_succ hv) (Nat.le_of_lt_succ ht)]
    change _ = Option.map _ (Except.toOption (ite (data.length < _) _ _))
    dsimp only
    split
    · rw [if_pos (by simp only [imageCrcLen, imageMetaLen]; omega)]
      rfl
    · rename_i hfit
      rw [if_neg (by simp only [imageCrcLen, imageMetaLen]; omega)]
      exact congrArg some (sliceBody_eq ⟨mode, _, _, _⟩ (by dsimp only; omega))

/-! ## `_diff_chunks` -/

/-- The block `[start, stop)`, joined to the last one over a gap of at most `gap`. The last block
comes first. mirrors check_bin_file.py:73-76, 79-82 -/
def addChunk (gap : Nat) (chunks : List (Nat × Nat)) (start stop : Nat) : List (Nat × Nat) :=
  match chunks with
  | [] => [(start, stop)]
  | (s, e) :: rest => if start - e ≤ gap then (s, stop) :: rest else (start, stop) :: chunks

section
variable (a b : Bytes) (gap : Nat)

/-- The loop over the first `n` positions. -/
def commonChunks (n : Nat) : List (Nat × Nat) := (range n).foldl (fun chunks i =>
  if a[i]? = b[i]? then chunks else addChunk gap chunks i (i + 1)) []

/-- mirrors check_bin_file.py:68-83 -/
def diffChunks : List (Nat × Nat) :=
  let n := min a.length b.length
  let chunks := commonChunks a b gap n
  (if a.length ≠ b.length then addChunk gap chunks n (max a.length b.length) else chunks).reverse

/-- The bytes at `i` differ, or only one string has one. -/
def Differ (i : Nat) : Prop := a[i]? ≠ b[i]?

end

/-- Blocks of the positions `D` below `n`, the last one first: more than `gap` other positions are
between two blocks, and no run of more than `gap` is inside of one. -/
structure Blocks (D : Nat → Prop) (gap n : Nat) (chunks : List (Nat × Nat)) : Prop where
  ordered : chunks.Pairwise fun y x => x.2 + gap < y.1
  covers : ∀ i < n, D i → ∃ c ∈ chunks, c.1 ≤ i ∧ i < c.2
  ends : ∀ c ∈ chunks, c.1 < c.2 ∧ c.2 ≤ n ∧ D c.1 ∧ D (c.2 - 1)
  runs : ∀ c ∈ chunks, ∀ i k, c.1 ≤ i → i + k ≤ c.2 → (∀ j, i ≤ j → j < i + k → ¬ D j) → k ≤ gap

namespace Blocks

variable {D : Nat → Prop} {gap n stop s e : Nat} {chunks : List (Nat × Nat)}

theorem skip (h : Blocks D gap n chunks) (hn : ¬ D n) : Blocks D gap (n + 1) chunks where
  ordered := h.ordered
  covers i hi hd := h.covers i (Nat.lt_of_le_of_ne (Nat.le_of_lt_succ hi) fun he => hn (he ▸ hd)) hd
  ends c hc := by
    obtain ⟨h1, h2, hd⟩ := h.ends c hc
    exact ⟨h1, Nat.le_succ_of_le h2, hd⟩
  runs := h.runs

section
variable (hlt : n < stop) (hd : ∀ i, n ≤ i → i < stop → D i)
include hlt hd

theorem push (h : Blocks D gap n chunks) (hfar : ∀ c ∈ chunks, c.2 + gap < n) :
    Blocks D gap stop ((n, stop) :: chunks) where
  ordered := pairwise_cons.mpr ⟨hfar, h.ordered⟩
  covers i hi hdi := by
    rw [exists_mem_cons_iff]
    by_cases hin : i < n
    · exact .inr (h.covers i hin hdi)
    · exact .inl ⟨Nat.not_lt.mp hin, hi⟩
  ends := by
    refine forall_mem_cons.mpr ⟨⟨hlt, Nat.le_refl _, hd n (Nat.le_refl _) hlt, ?_⟩, fun c hc => ?_⟩
    · exact hd _ (by dsimp only; omega) (by dsimp only; omega)
    · obtain ⟨h1, h2, h3⟩ := h.ends c hc
      exact ⟨h1, by omega, h3⟩
  runs := by
    refine forall_mem_cons.mpr ⟨fun i k hi hk hj => ?_, h.runs⟩
    by_contra hlong
    exact hj i (Nat.le_refl _) (by omega) (hd i hi (by dsimp only at hk; omega))

theorem join (h : Blocks D gap n ((s, e) :: chunks)) (hgap : n - e ≤ gap) :
    Blocks D gap stop ((s, stop) :: chunks) := by
  obtain ⟨⟨hse, hen, hds, hde⟩, hends⟩ := forall_mem_cons.mp h.ends
  dsimp only at hse hen hds hde
  have hlast : D (stop - 1) := hd _ (by omega) (by omega)
  refine ⟨pairwise_cons.mpr (pairwise_cons.mp h.ordered), fun i hi hdi => ?_,
    forall_mem_cons.mpr ⟨⟨hse.trans (by omega), Nat.le_refl _, hds, hlast⟩, fun c hc => ?_⟩,
    forall_mem_cons.mpr ⟨fun i k hi hk hj => ?_, (forall_mem_cons.mp h.runs).2⟩⟩
  · rw [exists_mem_cons_iff]
    by_cases hin : i < n
    · exact ((exists_mem_cons_iff ..).mp (h.covers i hin hdi)).imp_left fun hc => ⟨hc.1, hi⟩
    · exact .inl ⟨by dsimp only; omega, hi⟩
  · obtain ⟨h1, h2, h3⟩ := hends c hc
    exact ⟨h1, by omega, h3⟩
  · -- a run that is too long reaches neither `n` nor the end of the old block
    by_contra hlong
    have h1 : i + k ≤ n := by
      by_contra hc
      exact hj (max i n) (by omega) (by omega) (hd _ (by omega) (by dsimp only at hk; omega))
    have h2 : i + k ≤ e := by
      by_contra hc
      exact hj (e - 1) (by omega) (by omega) hde
    exact hlong (h.runs _ mem_cons_self i k hi h2 hj)

theorem addChunk (h : Blocks D gap n chunks) : Blocks D gap stop (addChunk gap chunks n stop) := by
  unfold Ota.addChunk
  split
  · exact h.push hlt hd nofun
  · split
    · exact h.join hlt hd ‹_›
    · obtain ⟨ho, -⟩ := pairwise_cons.mp h.ordered
      obtain ⟨hse, -⟩ := h.ends _ mem_cons_self
      refine h.push hlt hd (forall_mem_cons.mpr ⟨by dsimp only; omega, fun c hc => ?_⟩)
      have := ho c hc
      dsimp only at this hse
      omega

end

end Blocks

section
variable (a b : Bytes) (gap : Nat)

theorem blocks_common (n : Nat) : Blocks (Differ a b) gap n (commonChunks a b gap n) := by
  induction n with
  | zero => exact ⟨.nil, nofun, nofun, nofun⟩
  | succ n ih =>
    unfold commonChunks at ih ⊢
    rw [range_succ, foldl_append, foldl_cons, foldl_nil]
    split
    · rename_i he
      exact ih.skip fun hne => hne he
    · rename_i hne
      refine ih.addChunk (Nat.lt_succ_self n) fun i h1 h2 => ?_
      rw [show i = n by omega]
      exact hne

/-- Behind the common part only one string has bytes. -/
theorem differ_tail {i : Nat} (h1 : min a.length b.length ≤ i) (h2 : i < max a.length b.length) :
    Differ a b i := by
  unfold Differ
  rcases Nat.lt_or_ge i a.length with h | h
  · rw [getElem?_eq_getElem h, getElem?_eq_none (by omega)]
    exact nofun
  · rw [getElem?_eq_none h, getElem?_eq_getElem (by omega)]
    exact nofun

theorem diffChunks_exact :
    Blocks (Differ a b) gap (max a.length b.length) (diffChunks a b gap).reverse ∧
      (diffChunks a b gap = [] ↔ a = b) := by
  have h : Blocks (Differ a b) gap (max a.length b.length) (diffChunks a b gap).reverse := by
    have hc := blocks_common a b gap (min a.length b.length)
    unfold diffChunks
    rw [reverse_reverse]
    split
    · exact hc.addChunk (by omega) fun i => differ_tail a b
    · rw [show max a.length b.length = min a.length b.length by omega]
      exact hc
  refine ⟨h, fun he => ext_getElem? fun i => ?_, fun he => ?_⟩
  · by_contra hd
    by_cases hi : i < max a.length b.length
    · obtain ⟨c, hc, -⟩ := h.covers i hi hd
      rw [he] at hc
      exact not_mem_nil hc
    · rw [getElem?_eq_none (by omega), getElem?_eq_none (by omega)] at hd
      exact hd rfl
  · subst he
    rw [← reverse_eq_nil_iff, eq_nil_iff_forall_not_mem]
    exact fun c hc => (h.ends c hc).2.2.1 rfl

end

end MiniTree.Ota
