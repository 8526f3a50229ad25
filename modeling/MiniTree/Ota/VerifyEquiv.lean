import MiniTree.Ota.Verify
import MiniTree.Ota.ImageLayout

/-!
# Verifying by stream and from a buffer

The two paths find the same fields: the offsets the stream computes are those of the view
that `image_parse` returns (`streamLayout_view`), and a loop over the payload feeds what one
call feeds (`feedPayload_eq`), for GCM if the pieces are whole blocks. What is left is what each path
asks for.

**Results.** `Setting.agrees_iff`: when the two verdicts are the same, with the same CRC. An
image in CRC mode must have the CRC it stores, because the stream reports the stored one and
the buffer the computed one; in CBC mode it must decrypt, because the stream checks nothing;
with GCM and with CBC and HMAC an authentic image must come with a key the buffered path
takes, and in the second case decrypt. With GCM and a scratch buffer that cuts a payload inside a
block the library decides.
-/

namespace MiniTree.Ota

open MiniTree.Core Core.Chunked List Option Prod

/-- An image, what it is checked with, and a callback that serves it. -/
structure Setting where
  build : Build
  img : Bytes
  cfg : ReadCfg
  read : ReadFn
  serves : Serves read img
  scratchSize : Nat
  scratch_min : 16 ≤ scratchSize
  cap : Nat
  fits : ∀ v, imageParse img = .ok v → v.payloadLen ≤ cap

def Setting.stream (s : Setting) : VerifyResult :=
  imageVerifyStream s.build s.read s.img.length s.cfg s.scratchSize

def Setting.buffered (s : Setting) : ReadResult := imageReadPayload s.build s.img s.cfg (some s.cap)

/-- One path accepts what the other does, and where both report a CRC it is the same. -/
structure Setting.Agrees (s : Setting) : Prop where
  verdict : s.stream.rc = .ok () ↔ ∃ p, s.buffered.rc = .ok p
  crc : ∀ a b, s.stream.outCrc = some a → s.buffered.crcCalc = some b → a = b

/-! ## What an image must satisfy -/

section
variable (b : Build) (img : Bytes) (v : ImageView)

/-- The tag of the image is that of its payload. -/
def GcmVerifies (key : Bytes) : Prop :=
  ∃ g r, b.lib.gcm.starts (slice img v.aux imageGcmNonceLen) key = some g ∧
    b.lib.gcm.update g (v.payloadOf img) = some r ∧
    b.lib.gcm.decryptFinish r.1 (slice img (v.aux + imageGcmNonceLen) imageGcmTagLen)
      imageGcmTagLen = true

/-- The tag of the image is what the library computes of its payload in pieces of `size` bytes. -/
def GcmPiecesVerify (size : Nat) (key : Bytes) : Prop :=
  ∃ g r, b.lib.gcm.starts (slice img v.aux imageGcmNonceLen) key = some g ∧
    feedLoop (fun off n => .ok (slice img off n)) b.lib.gcm.streamFeed size v.payloadLen v.payload
      v.payloadLen g = .ok r ∧
    b.lib.gcm.decryptFinish r (slice img (v.aux + imageGcmNonceLen) imageGcmTagLen)
      imageGcmTagLen = true

/-- No piece but the last one ends inside a block. -/
def WholeBlocks (size : Nat) : Prop := size % 16 = 0 ∨ v.payloadLen ≤ size
  deriving Decidable

/-- The HMAC of the image is that of its initialisation vector and payload. -/
def HmacVerifies (macKey : Bytes) : Prop := ∃ h₀ h₁ h₂ mac, b.lib.hmac.starts macKey = some h₀ ∧
    b.lib.hmac.update h₀ (slice img v.aux imageCbcIvLen) = some h₁ ∧
    b.lib.hmac.update h₁ (v.payloadOf img) = some h₂ ∧ b.lib.hmac.finish h₂ = some mac ∧
    ctEqual mac (slice img (v.aux + imageCbcIvLen) imageHashLen) imageHashLen = true

/-- PKCS#7: the last `n` bytes are `n`, at least one of them and at most a block. -/
def Padded (data : Bytes) : Prop :=
  ∃ body n, 1 ≤ n ∧ n ≤ imageCbcBlockLen ∧ data = body ++ List.replicate n (UInt8.ofNat n)

/-- The build has the cipher, there is a key of one of the three lengths, the payload is of
whole blocks and decrypts to padded text. -/
def Decrypts (cfg : ReadCfg) : Prop :=
  b.crypto = true ∧ ∃ key, cfg.key = some key ∧ aesKeyLen key.length = true ∧
    v.payloadLen ≠ 0 ∧ v.payloadLen % imageCbcBlockLen = 0 ∧
    ∃ ctx out, b.lib.cbc.setkeyDec key = some ctx ∧
      b.lib.cbc.crypt ctx (slice img v.aux imageCbcIvLen) (v.payloadOf img) = some out ∧ Padded out

/-- What the mode of the image asks for. -/
def ModeConsistent (cfg : ReadCfg) (size : Nat) (v : ImageView) : Prop :=
  match v.mode with
  | .crc => b.crc.calc (v.payloadOf img) = v.crcStored
  | .sha => True
  | .gcm => ∀ key, b.crypto = true → cfg.key = some key →
      if WholeBlocks v size then GcmVerifies b img v key → aesKeyLen key.length = true
      else GcmPiecesVerify b img v size key ↔ aesKeyLen key.length = true ∧ GcmVerifies b img v key
  | .cbc => Decrypts b img v cfg
  | .cbcSha => ∀ macKey, b.crypto = true → cfg.hmacKey = some macKey →
      HmacVerifies b img v macKey → Decrypts b img v cfg

end

def Setting.Consistent (s : Setting) : Prop :=
  ∀ v, imageParse s.img = .ok v → ModeConsistent s.build s.img s.cfg s.scratchSize v

/-! ## Results and errors -/

variable {e : ReadErr} {α : Type}

@[simp] theorem orErr_eq_ok {x : Option α} {a : α} :
    orErr e x = .ok a ↔ x = some a := by cases x <;> simp [orErr]

theorem orErr_bind {α β : Type} (e : ReadErr) (x : Option α) (f : α → Option β) :
    orErr e (x.bind f) = (orErr e x).bind fun a => orErr e (f a) := by cases x <;> rfl

variable {x : Except ReadErr α}

/-- A sequence succeeds when each of its parts does. -/
@[simp] theorem bind_eq_ok {β : Type} {f : α → Except ReadErr β} {c : β} :
    (x >>= f) = .ok c ↔ ∃ a, x = .ok a ∧ f a = .ok c := by
  cases x <;> simp [bind, Except.bind]

@[simp] theorem ite_eq_ok {p : Prop} [Decidable p]
    {a : α} : (if p then x else .error e) = .ok a ↔ p ∧ x = .ok a := by split <;> simp [*]

@[simp] theorem ite_error_eq_ok {p : Prop} [Decidable p]
    {a : α} : (if p then .error e else x) = .ok a ↔ ¬ p ∧ x = .ok a := by
  split <;> simp [*]

/-! ## Where updates may be cut -/

theorem Digest.additive {Key : Type} (d : Digest Key) (e : ReadErr) :
    Additive 1 fun s data => orErr e (d.update s data) where
  nil s := by rw [d.update_nil]; rfl
  append s a b _ := by rw [d.update_append, orErr_bind]

theorem Gcm.additive (g : Gcm) : Additive 16 g.streamFeed where
  nil s := by rw [Gcm.streamFeed, g.update_nil]; rfl
  append s a b ha := by
    unfold Gcm.streamFeed
    rw [g.update_append s a b ha]
    cases g.update s a with
    | none => rfl
    | some r =>
      change orErr _ (((g.update r.1 b).map _).map fst) = orErr _ ((g.update r.1 b).map fst)
      rw [Option.map_map]
      rfl

theorem CrcModel.feed_nil (c : CrcModel) (s : Crc.Stream) : c.feed s [] = s := by
  simp [CrcModel.feed, Crc.streamFeed, Crc.tableEngine, Crc.bitwiseEngine]

/-- Both engines go over the input byte by byte. -/
theorem CrcModel.feed_append (c : CrcModel) (s : Crc.Stream) (a b : Bytes) :
    c.feed s (a ++ b) = c.feed (c.feed s a) b := by
  unfold CrcModel.feed
  split
  · by_cases hw : s.width = 0 ∨ 32 < s.width
    · simp only [if_pos hw]
    · simp only [if_neg hw]
      unfold Crc.tableEngine Crc.bitwiseEngine
      split <;> rw [foldl_append]
  · unfold Crc.streamFeed
    by_cases hw : s.width = 0 ∨ 32 < s.width
    · simp only [if_pos hw]
    · simp only [if_neg hw, Crc.bitwiseEngine, foldl_append]

theorem CrcModel.additive (c : CrcModel) :
    Additive 1 fun s data => (.ok (c.feed s data) : Except ReadErr Crc.Stream) where
  nil s := by rw [c.feed_nil]
  append s a b _ := by rw [c.feed_append]; rfl

/-! ## The fields -/

theorem ReadFn.serves_run {read : ReadFn} {img : Bytes} (h : Serves read img) :
    Serves read.run img := by
  intro off n hin
  unfold ReadFn.run
  rw [h off n hin]
  rfl

theorem metaDecode_slice (img : Bytes) (off : Nat) :
    metaDecode (slice img off imageMetaLen) 0 = metaDecode img off := by
  unfold metaDecode imageMetaLen
  simp (disch := decide) only [zero_add, add_zero, byteAt_slice]

/-- The stream's fields are those of the view, and they lie in the image. -/
structure SameFields (img : Bytes) (l : StreamLayout) (v : ImageView) : Prop where
  mode : l.info.mode = v.mode
  payloadOff : l.payloadOff = v.payload
  payloadLen : l.payloadLen = v.payloadLen
  crcStored : l.crcStored = v.crcStored
  auxOff : l.auxOff img.length v.auxLen = v.aux
  auxLen : v.auxLen = imageAuxLen v.mode
  payload_le : v.payload + v.payloadLen ≤ img.length
  aux_le : v.aux + v.auxLen ≤ img.length

/-- `image_verify_stream` computes the layout `image_parse` does. -/
theorem streamLayout_view {read : ReadFn} {img : Bytes} {v : ImageView} (hread : Serves read img)
    (hv : imageParse img = .ok v) : ∃ l, streamLayout read img.length = .ok l ∧ SameFields img l v := by
  obtain ⟨m, hm, hfit, rfl⟩ := imageParse_ok hv
  have hlens := metaDecode_lengths hm
  have hrun := ReadFn.serves_run hread
  have hcrc : imageCrcLen = 4 := rfl
  have hmeta : imageMetaLen = 4 := rfl
  unfold streamLayout
  rw [hrun _ _ (by omega)]
  simp only [metaDecode_slice, hm, imageOverhead_eq m.mode hlens.1 hlens.2, Except.mapError, bind,
    Except.bind]
  rw [if_neg (by omega), hrun _ _ (by split <;> omega)]
  refine ⟨_, rfl, ?_⟩
  cases hf : m.isFront with
  | true =>
    constructor <;> simp [imageFields, hf, StreamLayout.auxOff, le32At_slice] <;> omega
  | false =>
    -- the stream counts back from the end, the view forward from the payload
    have hback : img.length - imageCrcLen - imageMetaLen =
        img.length - (imageCrcLen + imageMetaLen + m.versionLen + m.tagLen + imageAuxLen m.mode) +
          imageAuxLen m.mode + m.versionLen + m.tagLen := by omega
    constructor <;> simp [imageFields, hf, StreamLayout.auxOff, le32At_slice, hback] <;> omega

theorem streamLayout_error {read : ReadFn} {img : Bytes} {e : OtaErr} (hread : Serves read img)
    (hlen : imageCrcLen + imageMetaLen ≤ img.length) (he : imageParse img = .error e) :
    streamLayout read img.length = .error (.ota e) := by
  have hrun := ReadFn.serves_run hread
  have hmeta : imageMetaLen = 4 := rfl
  unfold imageParse at he
  rw [if_neg (by omega)] at he
  unfold streamLayout
  rw [hrun _ _ (by omega)]
  simp only [metaDecode_slice, bind, Except.bind, Except.mapError] at he ⊢
  cases hm : metaDecode img (img.length - imageMetaLen) with
  | error e' =>
    rw [hm] at he
    cases he
    rfl
  | ok m =>
    have hlens := metaDecode_lengths hm
    rw [hm] at he
    simp only [imageOverhead_eq m.mode hlens.1 hlens.2] at he ⊢
    split at he
    · rename_i hshort
      cases he
      rw [if_pos hshort]
    · cases he

/-! ## The payload -/

section Branches

variable {b : Build} {read : ReadFn} {img : Bytes} {cfg : ReadCfg} {size : Nat} {l : StreamLayout}
  {v : ImageView}

theorem feedPayload_eq {σ : Type} (hread : Serves read img) (hsize : 16 ≤ size)
    (h : SameFields img l v) {feed : σ → Bytes → Except ReadErr σ} (hfeed : Additive 1 feed) (s : σ) :
    l.feedPayload read size feed s = feed s (v.payloadOf img) := by
  unfold StreamLayout.feedPayload ImageView.payloadOf
  rw [h.payloadOff, h.payloadLen]
  exact feedLoop_eq (ReadFn.serves_run hread) hfeed (by omega) _ _ _ _ (.inl (Nat.mod_one _)) le_rfl
    h.payload_le

/-- The pieces of a payload verify when it does, if they are whole blocks. -/
theorem gcmPiecesVerify_iff (h : SameFields img l v) (hsize : 16 ≤ size) (hw : WholeBlocks v size)
    (key : Bytes) : GcmPiecesVerify b img v size key ↔ GcmVerifies b img v key := by
  have hloop : ∀ g, feedLoop (fun off n => .ok (slice img off n)) b.lib.gcm.streamFeed size
      v.payloadLen v.payload v.payloadLen g = b.lib.gcm.streamFeed g (v.payloadOf img) := fun g =>
    feedLoop_eq (fun _ _ _ => rfl) b.lib.gcm.additive (by omega) _ _ _ g hw le_rfl h.payload_le
  unfold GcmPiecesVerify GcmVerifies
  simp only [hloop, Gcm.streamFeed, orErr_eq_ok, Option.map_eq_some_iff]
  constructor
  · rintro ⟨g, -, hg, ⟨r, hr, rfl⟩, hfin⟩
    exact ⟨g, r, hg, hr, hfin⟩
  · rintro ⟨g, r, hg, hr, hfin⟩
    exact ⟨g, r.1, hg, ⟨r, hr, rfl⟩, hfin⟩

section
variable (hread : Serves read img)
include hread

theorem run_aux (h : SameFields img l v) {len o n : Nat}
    (hlen : v.auxLen = len) (hn : o + n ≤ len) :
    read.run (l.auxOff img.length len + o) n = .ok (slice img (v.aux + o) n) := by
  have := h.aux_le
  rw [← hlen, h.auxOff]
  exact ReadFn.serves_run hread _ _ (by omega)

theorem streamGcm_ok (h : SameFields img l v)
    (hmode : v.mode = .gcm) : streamGcm b read img.length cfg size l = .ok () ↔
      ∃ key, cfg.key = some key ∧ GcmPiecesVerify b img v size key := by
  have haux : v.auxLen = imageGcmNonceLen + imageGcmTagLen := by rw [h.auxLen, hmode]; rfl
  have hnonce := run_aux (o := 0) (n := imageGcmNonceLen) hread h haux (by decide)
  have htag := run_aux hread h haux le_rfl
  simp only [add_zero] at hnonce
  unfold streamGcm GcmPiecesVerify StreamLayout.feedPayload
  rw [h.payloadOff, h.payloadLen]
  cases cfg.key with
  | none => simp
  | some key =>
    simp only [feedLoop_serves (ReadFn.serves_run hread) _ _ _ _ h.payload_le, hnonce, htag]
    simp

section
variable (hsize : 16 ≤ size) (h : SameFields img l v)
include hsize h

theorem streamCrc_ok :
    streamCrc b read size l = .ok () ↔ b.crc.calc (v.payloadOf img) = v.crcStored := by
  unfold streamCrc
  rw [feedPayload_eq hread hsize h b.crc.additive, h.crcStored]
  simp [CrcModel.calc]

/-- With the cipher in the build the two paths check a digest alike. -/
theorem streamSha_eq (hb : b.crypto = true) (hmode : v.mode = .sha) :
    streamSha b read img.length size l = checkSha b img v := by
  have haux : v.auxLen = imageHashLen := by rw [h.auxLen, hmode]; rfl
  have hexpect := run_aux hread h haux (le_of_eq (zero_add _))
  simp only [add_zero] at hexpect
  unfold streamSha checkSha
  rw [if_pos hb, if_neg (by omega), hexpect]
  simp only [feedPayload_eq hread hsize h (b.lib.sha256.additive .hashFailed)]
  rfl

theorem streamCbcSha_ok
    (hmode : v.mode = .cbcSha) : streamCbcSha b read img.length cfg size l = .ok () ↔
      ∃ macKey, cfg.hmacKey = some macKey ∧ HmacVerifies b img v macKey := by
  have haux : v.auxLen = imageCbcIvLen + imageHashLen := by rw [h.auxLen, hmode]; rfl
  have hiv := run_aux (o := 0) (n := imageCbcIvLen) hread h haux (by decide)
  have hmac := run_aux hread h haux le_rfl
  simp only [add_zero] at hiv
  unfold streamCbcSha HmacVerifies
  cases cfg.hmacKey with
  | none => simp
  | some macKey =>
    simp only [feedPayload_eq hread hsize h (b.lib.hmac.additive (.ota .auth)), hiv, hmac]
    simp

end

end

/-! ## The buffered path -/

theorem copyPlain_ok (img : Bytes) {cap : Nat} (hcap : v.payloadLen ≤ cap) :
    ∃ p, copyPlain img v (some cap) = .ok p := by
  refine ⟨⟨v.payloadLen, some (v.payloadOf img)⟩, ?_⟩
  simp only [copyPlain]
  rw [if_neg (by omega)]

theorem checkCryptoArgs_ok {cap : Nat} {r : Bytes × Nat} : checkCryptoArgs cfg (some cap) = .ok r ↔
      cfg.key = some r.1 ∧ aesKeyLen r.1.length = true ∧ cap = r.2 := by
  obtain ⟨key, cap'⟩ := r
  unfold checkCryptoArgs
  cases cfg.key with
  | none => simp
  | some k => simp; grind

theorem byteAt_padding (body : Bytes) (x : UInt8) {n i : Nat} (hi : i < n) :
    byteAt (body ++ List.replicate n x) ((body ++ List.replicate n x).length - 1 - i) = x := by
  have h1 : body.length ≤ (body ++ List.replicate n x).length - 1 - i := by
    simp only [length_append, length_replicate]
    omega
  have h2 : (body ++ List.replicate n x).length - 1 - i - body.length < n := by
    simp only [length_append, length_replicate]
    omega
  unfold byteAt
  rw [getD_eq_getElem?_getD, List.getElem?_append_right h1, List.getElem?_replicate, if_pos h2]
  rfl

/-- `pkcs7_unpad` accepts whole blocks that are padded. -/
theorem pkcs7Unpad_ok {data : Bytes} (h0 : data.length ≠ 0)
    (hblock : data.length % imageCbcBlockLen = 0) : (∃ n, pkcs7Unpad data = .ok n) ↔ Padded data := by
  have hgo : ¬ (data.length = 0 ∨ data.length % imageCbcBlockLen ≠ 0) := by
    rintro (h | h)
    · exact h0 h
    · exact h hblock
  unfold pkcs7Unpad
  rw [if_neg hgo]
  generalize hpad : byteAt data (data.length - 1) = pad
  constructor
  · rintro ⟨n, hn⟩
    simp only [ite_error_eq_ok, ite_eq_ok] at hn
    obtain ⟨hrange, hall, -⟩ := hn
    have hp : pad.toNat ≠ 0 := fun h => hrange (.inl (UInt8.toNat_inj.mp h))
    refine ⟨data.take (data.length - pad.toNat), pad.toNat, by omega, by omega, ?_⟩
    have hdrop : data.drop (data.length - pad.toNat) = List.replicate pad.toNat pad := by
      refine ext_getElem ?_ ?_
      · rw [length_drop, length_replicate]
        omega
      · intro i hi _
        have hlt : i < pad.toNat := by
          rw [length_drop] at hi
          omega
        have h := hall (pad.toNat - 1 - i) (by omega)
        have hix : data.length - 1 - (pad.toNat - 1 - i) = data.length - pad.toNat + i := by omega
        have hin : data.length - pad.toNat + i < data.length := by omega
        rw [hix, byteAt, getD_eq_getElem?_getD, List.getElem?_eq_getElem hin, getD_some] at h
        rw [getElem_drop, getElem_replicate, h]
    rw [UInt8.ofNat_toNat, ← hdrop, take_append_drop]
  · rintro ⟨body, n, h1, h16, rfl⟩
    have hn : (UInt8.ofNat n).toNat = n := by
      rw [UInt8.toNat_ofNat']
      have : imageCbcBlockLen = 16 := rfl
      omega
    have hlast := byteAt_padding body (UInt8.ofNat n) (show 0 < n by omega)
    rw [Nat.sub_zero, hpad] at hlast
    subst hlast
    refine ⟨(body ++ List.replicate n (UInt8.ofNat n)).length - (UInt8.ofNat n).toNat, ?_⟩
    rw [if_neg, if_pos]
    · intro i hi
      exact byteAt_padding body _ (by omega)
    · rw [hn]
      rintro (h | h | h)
      · have := congrArg UInt8.toNat h
        rw [hn] at this
        exact absurd this (by rw [UInt8.toNat_zero]; omega)
      · omega
      · simp only [length_append, length_replicate] at h
        omega

theorem cbcPlain_ok {iv key payload : Bytes} (h0 : payload.length ≠ 0)
    (hblock : payload.length % imageCbcBlockLen = 0) : (∃ p, cbcPlain b iv key payload = .ok p) ↔
      ∃ ctx out, b.lib.cbc.setkeyDec key = some ctx ∧
        b.lib.cbc.crypt ctx iv payload = some out ∧ Padded out := by
  have hfeed : ∀ ctx, b.lib.cbc.decryptFeed ctx iv payload = b.lib.cbc.crypt ctx iv payload := by
    intro ctx
    unfold Cbc.decryptFeed
    rw [if_neg]
    rintro (h | h)
    · exact h0 h
    · exact h hblock
  unfold cbcPlain
  simp only [bind_eq_ok, orErr_eq_ok, hfeed, Except.ok.injEq]
  constructor
  · rintro ⟨p, ctx, hk, out, hout, n, hn, rfl⟩
    have hlen := b.lib.cbc.crypt_length hout
    exact ⟨ctx, out, hk, hout, (pkcs7Unpad_ok (by omega) (by rw [hlen, hblock])).mp ⟨n, hn⟩⟩
  · rintro ⟨ctx, out, hk, hout, hpad⟩
    have hlen := b.lib.cbc.crypt_length hout
    obtain ⟨n, hn⟩ := (pkcs7Unpad_ok (by omega) (by rw [hlen, hblock])).mpr hpad
    exact ⟨_, ctx, hk, out, hout, n, hn, rfl⟩

theorem payloadOf_length (h : SameFields img l v) : (v.payloadOf img).length = v.payloadLen :=
  slice_length h.payload_le

variable {cap : Nat}

theorem readMode_gcm_ok (h : SameFields img l v) (hcap : v.payloadLen ≤ cap) (hmode : v.mode = .gcm) :
    (∃ p, readMode b img cfg (some cap) v = .ok p) ↔
      b.crypto = true ∧ ∃ key, cfg.key = some key ∧ aesKeyLen key.length = true ∧
        GcmVerifies b img v key := by
  have haux : v.auxLen = imageGcmNonceLen + imageGcmTagLen := by rw [h.auxLen, hmode]; rfl
  simp only [readMode, hmode, bind_eq_ok, checkCryptoArgs_ok, gcmDecrypt, ite_eq_ok,
    ite_error_eq_ok, orErr_eq_ok, GcmVerifies]
  constructor
  · rintro ⟨p, ⟨key, cap'⟩, ⟨hk, hlen, -⟩, hb, -, -, g, hg, r, hr, hfin, -⟩
    exact ⟨hb, key, hk, hlen, g, r, hg, hr, hfin⟩
  · rintro ⟨hb, key, hk, hlen, g, r, hg, hr, hfin⟩
    exact ⟨_, (key, cap), ⟨hk, hlen, rfl⟩, hb, by omega, by omega, g, hg, r, hr, hfin, rfl⟩

theorem readMode_cbc_ok (h : SameFields img l v) (hcap : v.payloadLen ≤ cap) (hmode : v.mode = .cbc) :
    (∃ p, readMode b img cfg (some cap) v = .ok p) ↔ Decrypts b img v cfg := by
  have haux : v.auxLen = imageCbcIvLen := by rw [h.auxLen, hmode]; rfl
  have hpay := payloadOf_length h
  simp only [readMode, hmode, bind_eq_ok, checkCryptoArgs_ok, cbcDecryptDispatch, cbcDecrypt,
    ite_eq_ok, ite_error_eq_ok, Decrypts]
  constructor
  · rintro ⟨p, ⟨key, cap'⟩, ⟨hk, hlen, -⟩, hb, -, hblock, -, hp⟩
    obtain ⟨h0, h16⟩ := not_or.mp hblock
    exact ⟨hb, key, hk, hlen, h0, not_not.mp h16,
      (cbcPlain_ok (by omega) (by rw [hpay]; exact not_not.mp h16)).mp ⟨p, hp⟩⟩
  · rintro ⟨hb, key, hk, hlen, h0, h16, hout⟩
    obtain ⟨p, hp⟩ := (cbcPlain_ok (by omega) (by rw [hpay, h16])).mpr hout
    exact ⟨p, (key, cap), ⟨hk, hlen, rfl⟩, hb, by omega, not_or.mpr ⟨h0, not_not.mpr h16⟩,
      by omega, hp⟩

theorem readMode_cbcSha_ok (h : SameFields img l v) (hcap : v.payloadLen ≤ cap)
    (hmode : v.mode = .cbcSha) : (∃ p, readMode b img cfg (some cap) v = .ok p) ↔
      Decrypts b img v cfg ∧ ∃ macKey, cfg.hmacKey = some macKey ∧ HmacVerifies b img v macKey := by
  have haux : v.auxLen = imageCbcIvLen + imageHashLen := by rw [h.auxLen, hmode]; rfl
  have hpay := payloadOf_length h
  simp only [readMode, hmode, bind_eq_ok, checkCryptoArgs_ok, cbcShaDecrypt,
    ite_eq_ok, ite_error_eq_ok, orErr_eq_ok, Decrypts, HmacVerifies, bind_eq_some_iff]
  constructor
  · rintro ⟨p, ⟨key, cap'⟩, ⟨hk, hlen, -⟩, hb, -, hblock, -, h₀, ⟨mk, hmk, hs⟩, h1, hu, h2, hw, mac,
      hf, heq, hp⟩
    obtain ⟨h0, h16⟩ := not_or.mp hblock
    exact ⟨⟨hb, key, hk, hlen, h0, not_not.mp h16,
      (cbcPlain_ok (by omega) (by rw [hpay]; exact not_not.mp h16)).mp ⟨p, hp⟩⟩,
      mk, hmk, h₀, h1, h2, mac, hs, hu, hw, hf, heq⟩
  · rintro ⟨⟨hb, key, hk, hlen, h0, h16, hout⟩, mk, hmk, h₀, h1, h2, mac, hs, hu, hw, hf, heq⟩
    obtain ⟨p, hp⟩ := (cbcPlain_ok (by omega) (by rw [hpay, h16])).mpr hout
    exact ⟨p, (key, cap), ⟨hk, hlen, rfl⟩, hb, by omega, not_or.mpr ⟨h0, not_not.mpr h16⟩,
      by omega, h₀, ⟨mk, hmk, hs⟩, h1, hu, h2, hw, mac, hf, heq, hp⟩

end Branches

/-! ## The two verdicts -/

namespace Setting

variable (s : Setting)

/-- What both paths return on an image whose layout is refused. -/
theorem refused {e : OtaErr} (he : imageParse s.img = .error e) :
    (∃ e', s.stream.rc = .error e') ∧ s.buffered.rc = .error (.ota e) ∧
      s.buffered.crcCalc = none := by
  refine ⟨?_, ?_, ?_⟩
  · unfold stream imageVerifyStream
    split
    · exact ⟨_, rfl⟩
    · rename_i hlen
      rw [streamLayout_error s.serves (by omega) he]
      exact ⟨_, rfl⟩
  · unfold buffered imageReadPayload
    rw [he]
  · unfold buffered imageReadPayload
    rw [he]

section
variable {v : ImageView} (hv : imageParse s.img = .ok v)
include hv

theorem buffered_eq :
    s.buffered = ⟨readMode s.build s.img s.cfg (some s.cap) v, some v,
      if v.mode = .crc then some (s.build.crc.calc (v.payloadOf s.img)) else none⟩ := by
  unfold buffered imageReadPayload
  rw [hv]

theorem stream_eq : ∃ l, SameFields s.img l v ∧
      s.stream = ⟨streamMode s.build s.read s.img.length s.cfg s.scratchSize l, some v.crcStored⟩ := by
  obtain ⟨l, hl, h⟩ := streamLayout_view s.serves hv
  obtain ⟨m, -, hfit, -⟩ := imageParse_ok hv
  have hmin := s.scratch_min
  refine ⟨l, h, ?_⟩
  unfold stream imageVerifyStream
  rw [if_neg (by omega), hl, ← h.crcStored]

/-- The stream accepts what the buffered path does, in each mode. -/
theorem verdict_iff :
    (s.stream.rc = .ok () ↔ ∃ p, s.buffered.rc = .ok p) ↔
      (v.mode ≠ .crc → ModeConsistent s.build s.img s.cfg s.scratchSize v) := by
  obtain ⟨l, h, hstream⟩ := s.stream_eq hv
  have hcap := s.fits v hv
  rw [hstream, s.buffered_eq hv]
  dsimp only
  unfold streamMode
  rw [h.mode]
  cases hmode : v.mode with
  | crc =>
    obtain ⟨p, hp⟩ := copyPlain_ok s.img hcap
    simp only [streamCrc_ok s.serves s.scratch_min h, readMode, hmode, ite_error_eq_ok, hp]
    simp
  | sha =>
    obtain ⟨p, hp⟩ := copyPlain_ok s.img hcap
    simp only [readMode, hmode, hp, bind_eq_ok, ModeConsistent]
    by_cases hb : s.build.crypto = true
    · rw [if_pos hb, streamSha_eq s.serves s.scratch_min h hb hmode]
      simp only [Except.ok.injEq, implies_true, iff_true]
      exact ⟨fun hok => ⟨p, (), hok, rfl⟩, fun ⟨_, _, hok, _⟩ => hok⟩
    · rw [if_neg hb]
      simp [checkSha, hb]
  | gcm =>
    rw [readMode_gcm_ok h hcap hmode, ite_eq_ok, streamGcm_ok s.serves h hmode]
    simp only [ModeConsistent, hmode]
    refine .trans ?_ (forall_prop_of_true (by decide)).symm
    have hwhole : ∀ key, (if WholeBlocks v s.scratchSize then
          GcmVerifies s.build s.img v key → aesKeyLen key.length = true
        else GcmPiecesVerify s.build s.img v s.scratchSize key ↔
          aesKeyLen key.length = true ∧ GcmVerifies s.build s.img v key) ↔
        (GcmPiecesVerify s.build s.img v s.scratchSize key ↔
          aesKeyLen key.length = true ∧ GcmVerifies s.build s.img v key) := by
      intro key
      split
      · rename_i hw
        rw [gcmPiecesVerify_iff h s.scratch_min hw]
        tauto
      · rfl
    simp only [hwhole]
    cases s.cfg.key with
    | none => simp
    | some key => simp [and_congr_right_iff]
  | cbc =>
    rw [readMode_cbc_ok h hcap hmode]
    simp [ModeConsistent, hmode]
  | cbcSha =>
    rw [readMode_cbcSha_ok h hcap hmode, ite_eq_ok, streamCbcSha_ok s.serves s.scratch_min h hmode]
    simp only [ModeConsistent, hmode]
    constructor
    · rintro hiff - macKey hb hk hver
      exact (hiff.mp ⟨hb, macKey, hk, hver⟩).1
    · intro hcon
      constructor
      · rintro ⟨hb, macKey, hk, hver⟩
        exact ⟨hcon (by decide) macKey hb hk hver, macKey, hk, hver⟩
      · rintro ⟨hdec, hmac⟩
        exact ⟨hdec.1, hmac⟩

theorem crc_iff :
    (∀ a b, s.stream.outCrc = some a → s.buffered.crcCalc = some b → a = b) ↔
      (v.mode = .crc → ModeConsistent s.build s.img s.cfg s.scratchSize v) := by
  obtain ⟨l, -, hstream⟩ := s.stream_eq hv
  rw [hstream, s.buffered_eq hv]
  dsimp only
  by_cases hmode : v.mode = .crc
  · simp only [hmode, if_true, ModeConsistent, some.injEq, forall_true_left]
    constructor
    · intro h
      exact (h _ _ rfl rfl).symm
    · rintro h a b rfl rfl
      exact h.symm
  · simp [hmode]

end

/-- Streaming and buffered verification agree exactly on the images that are consistent with
what their mode asks for. -/
theorem agrees_iff : s.Agrees ↔ s.Consistent := by
  cases hv : imageParse s.img with
  | error e =>
    obtain ⟨⟨e', hstream⟩, hbuf, hcrc⟩ := s.refused hv
    constructor
    · intro _ v hv'
      rw [hv] at hv'
      cases hv'
    · intro _
      constructor
      · rw [hstream, hbuf]
        simp
      · intro a b _ hb
        rw [hcrc] at hb
        cases hb
  | ok v =>
    have hcon : s.Consistent ↔ ModeConsistent s.build s.img s.cfg s.scratchSize v := by
      unfold Consistent
      rw [hv]
      simp
    have hsplit : s.Agrees ↔ (s.stream.rc = .ok () ↔ ∃ p, s.buffered.rc = .ok p) ∧
        ∀ a b, s.stream.outCrc = some a → s.buffered.crcCalc = some b → a = b :=
      ⟨fun h => ⟨h.verdict, h.crc⟩, fun h => ⟨h.1, h.2⟩⟩
    rw [hsplit, s.verdict_iff hv, s.crc_iff hv, hcon]
    constructor
    · rintro ⟨hother, hcrc⟩
      by_cases hmode : v.mode = .crc
      · exact hcrc hmode
      · exact hother hmode
    · intro h
      exact ⟨fun _ => h, fun _ => h⟩

/-! ## An image only the stream accepts -/

/-- A library that copies what it is given. -/
def copying : Mbedtls where
  sha256 := ⟨Bytes, fun _ => some [], fun s d => some (s ++ d), some, by simp, by simp⟩
  hmac := ⟨Bytes, fun _ => some [], fun s d => some (s ++ d), some, by simp, by simp⟩
  gcm := ⟨Bytes, fun _ _ => some [], fun s d => some (s ++ d, d), fun s _ => some s, by simp, by simp⟩
  cbc := ⟨Unit, fun _ => some (), fun _ _ d => some d, by rintro _ _ _ _ ⟨⟩; rfl⟩

/-- An image in CBC mode without a payload. -/
def emptyCbcImage : Bytes := List.replicate 16 0 ++ [0, 0, 0, 0] ++ [0xA5, 3, 0, 0]

def emptyCbc (lib : Mbedtls) : Setting where
  build := ⟨true, ⟨true, 0xFFFFFFFF, true, true, 0xFFFFFFFF, 0x04C11DB7, 32⟩, lib⟩
  img := emptyCbcImage
  cfg := ⟨some (List.replicate 16 0), none⟩
  read off n := .ok (slice emptyCbcImage off n)
  serves _ _ _ := rfl
  scratchSize := 16
  scratch_min := le_rfl
  cap := emptyCbcImage.length
  fits v hv := by
    obtain ⟨m, -, -, rfl⟩ := imageParse_ok hv
    unfold imageFields
    split <;> exact Nat.sub_le _ _

/-- Whatever library is linked in, the stream takes it and the buffered path does not. -/
theorem emptyCbc_verdicts (lib : Mbedtls) :
    (emptyCbc lib).stream.rc = .ok () ∧ (emptyCbc lib).buffered.rc = .error (.ota .arg) := by
  have hv : imageParse emptyCbcImage = .ok ⟨.cbc, false, 0, 0, 0, 16, 16, 0, 16, 0, 0⟩ := by
    decide +kernel
  obtain ⟨l, h, hstream⟩ := (emptyCbc lib).stream_eq hv
  constructor
  · rw [hstream]
    unfold streamMode
    rw [h.mode]
  · rw [(emptyCbc lib).buffered_eq hv]
    rfl

theorem cbc_stream_unchecked : ¬ ∀ s : Setting, s.Agrees := by
  intro h
  obtain ⟨hstream, hbuf⟩ := emptyCbc_verdicts copying
  obtain ⟨p, hp⟩ := (h (emptyCbc copying)).verdict.mp hstream
  rw [hbuf] at hp
  cases hp

end Setting

end MiniTree.Ota
