import MiniTree.Core.Chunked
import MiniTree.Ota.CrcEngines
import MiniTree.Ota.Image

/-!
# Verifying an image (`bootutil/src/read.c`, `algorithm/src/*.c`)

`image_read_payload` checks and decrypts an image that stands in one buffer;
`image_verify_stream` checks it while reading it through a callback, as many bytes at a time
as its scratch buffer holds.

The primitives of mbedtls are not part of the repository. They come as `Mbedtls`, the same
functions on both paths, with what its documentation grants: an update of nothing changes nothing,
and the updates of a digest may be cut anywhere, those of GCM behind whole blocks of 16 bytes only
(mbedtls 2.28). A call that does not return 0 is `none`.
A pointer and its length are one byte string, a null pointer is `none`.
-/

namespace MiniTree.Ota

open MiniTree.Core Core.Chunked

/-- The codes of `err.h` these functions return, and what a read callback returns. -/
inductive ReadErr where
  | ota (e : OtaErr)
  | bufTooSmall | hashMismatch | hashFailed | decryptFailed | padding
  | callback (rc : Int)
  deriving DecidableEq, Repr

/-- `if (rc != 0) return e` -/
def orErr {α : Type} (e : ReadErr) : Option α → Except ReadErr α
  | none => .error e
  | some a => .ok a

/-! ## What is linked in -/

/-- An incremental digest; `Key` is what it starts from. -/
structure Digest (Key : Type) where
  State : Type
  starts : Key → Option State
  update : State → Bytes → Option State
  finish : State → Option Bytes
  update_nil : ∀ s, update s [] = some s
  update_append : ∀ s a b, update s (a ++ b) = (update s a).bind fun s => update s b

structure Gcm where
  State : Type
  /-- `mbedtls_gcm_setkey` and `mbedtls_gcm_starts`: the nonce and the key -/
  starts : Bytes → Bytes → Option State
  update : State → Bytes → Option (State × Bytes)
  finish : State → Nat → Option Bytes
  update_nil : ∀ s, update s [] = some (s, [])
  update_append : ∀ s a b, a.length % 16 = 0 → update s (a ++ b) =
    (update s a).bind fun r => (update r.1 b).map fun q => (q.1, r.2 ++ q.2)

structure Cbc where
  Ctx : Type
  setkeyDec : Bytes → Option Ctx
  /-- `mbedtls_aes_crypt_cbc`: the initialisation vector and the data -/
  crypt : Ctx → Bytes → Bytes → Option Bytes
  crypt_length : ∀ {c iv data plain}, crypt c iv data = some plain → plain.length = data.length

structure Mbedtls where
  sha256 : Digest Unit
  hmac : Digest Bytes
  gcm : Gcm
  cbc : Cbc

/-- mirrors bootutil/inc/boot_config.h:76-143: the parameters of the CRC -/
structure CrcModel where
  /-- `CRC_MODE` -/
  table : Bool
  init : BitVec 32
  refin : Bool
  refout : Bool
  xorOut : BitVec 32
  poly : BitVec 32
  width : Nat

/-- A build: `IMAGE_CRYPTO_ENABLE`, the CRC and the library. -/
structure Build where
  crypto : Bool
  crc : CrcModel
  lib : Mbedtls

/-- `crc_stream_start` with the parameters of the build -/
def CrcModel.start (c : CrcModel) : Crc.Stream :=
  Crc.streamStart c.init c.refin c.refout c.xorOut c.poly c.width

/-- mirrors crc.c:263-279 (`crc_stream_feed`), both values of `CRC_MODE` -/
def CrcModel.feed (c : CrcModel) (s : Crc.Stream) (data : Bytes) : Crc.Stream :=
  if c.table then
    if s.width = 0 ∨ 32 < s.width then s
    else { s with reg := Crc.tableEngine data s.reg s.refin s.poly s.width (Crc.maskOf s.width) }
  else Crc.streamFeed s data

def CrcModel.finish (s : Crc.Stream) : UInt32 := ⟨Crc.streamFinish s⟩

/-- mirrors read.c:194-203 (`calc_crc`) -/
def CrcModel.calc (c : CrcModel) (payload : Bytes) : UInt32 :=
  CrcModel.finish (c.feed c.start payload)

/-! ## The wrappers -/

/-- mirrors read.c:181-191 -/
def ctEqual (a b : Bytes) (len : Nat) : Bool :=
  (List.range len).foldl (fun diff i => diff ||| (byteAt a i ^^^ byteAt b i)) 0 == 0

/-- mirrors aes.c:77-86 (`aes_gcm_stream_feed`), as the stream calls it: the plaintext is dropped -/
def Gcm.streamFeed (g : Gcm) (s : g.State) (data : Bytes) : Except ReadErr g.State :=
  orErr .decryptFailed ((g.update s data).map Prod.fst)

/-- mirrors aes.c:102-128 (`aes_gcm_decrypt_stream_finish`): whether it
returns 0 -/
def Gcm.decryptFinish (g : Gcm) (s : g.State) (tag : Bytes) (tagLen : Nat) : Bool :=
  if tagLen = 0 ∨ 16 < tagLen then false
  else match g.finish s tagLen with
    | none => false
    | some check => ctEqual check tag tagLen

/-- mirrors aes.c:196-207 (`aes_cbc_decrypt_stream_feed`) -/
def Cbc.decryptFeed (c : Cbc) (ctx : c.Ctx) (iv data : Bytes) : Option Bytes :=
  if data.length = 0 ∨ data.length % 16 ≠ 0 then none
  else c.crypt ctx iv data

def imageGcmNonceLen : Nat := 12
def imageGcmTagLen : Nat := 16
def imageCbcIvLen : Nat := 16
def imageHashLen : Nat := 32
def imageCbcBlockLen : Nat := 16

/-- mirrors bootutil/inc/read.h:117-124 (`image_read_cfg_t`) -/
structure ReadCfg where
  key : Option Bytes
  macKey : Option Bytes

/-- The key of the HMAC: `mac_key`, or `key` where there is none. -/
def ReadCfg.hmacKey (cfg : ReadCfg) : Option Bytes :=
  match cfg.macKey with
  | some k => some k
  | none => cfg.key

/-! ## The image in one buffer -/

/-- What goes to `out_plain_len` and `out_payload`. -/
structure Plain where
  len : Nat
  out : Option Bytes
  deriving DecidableEq, Repr

section
variable (b : Build) (buf : Bytes) (v : ImageView)

def ImageView.payloadOf (buf : Bytes) : Bytes := slice buf v.payload v.payloadLen

/-- mirrors read.c:206-223 (`copy_plain`); `out` is the capacity of the buffer -/
def copyPlain (out : Option Nat) : Except ReadErr Plain :=
  match out with
  | none => .ok ⟨v.payloadLen, none⟩
  | some cap =>
    if cap < v.payloadLen then .error .bufTooSmall
    else .ok ⟨v.payloadLen, some (v.payloadOf buf)⟩

/-- mirrors read.c:227-254 -/
def checkSha : Except ReadErr Unit :=
  if b.crypto then
    if v.auxLen < imageHashLen then .error (.ota .tooSmall)
    else do
      let sh ← orErr .hashFailed (b.lib.sha256.starts ())
      let sh ← orErr .hashFailed (b.lib.sha256.update sh (v.payloadOf buf))
      let digest ← orErr .hashFailed (b.lib.sha256.finish sh)
      if ctEqual digest (slice buf v.aux imageHashLen) imageHashLen then .ok ()
      else .error .hashMismatch
  else .error (.ota .unsupported)

/-- mirrors read.c:258-283 -/
def pkcs7Unpad (data : Bytes) : Except ReadErr Nat :=
  if data.length = 0 ∨ data.length % imageCbcBlockLen ≠ 0 then .error (.ota .arg)
  else
    let pad := byteAt data (data.length - 1)
    if pad = 0 ∨ imageCbcBlockLen < pad.toNat ∨ data.length < pad.toNat then .error .padding
    else if ∀ i < pad.toNat, byteAt data (data.length - 1 - i) = pad then
      .ok (data.length - pad.toNat)
    else .error .padding

/-- The second half of `cbc_decrypt` and `cbc_sha_decrypt`: decrypt and take the padding off. -/
def cbcPlain (iv key payload : Bytes) : Except ReadErr Plain := do
  let cbc ← orErr .decryptFailed (b.lib.cbc.setkeyDec key)
  let out ← orErr .decryptFailed (b.lib.cbc.decryptFeed cbc iv payload)
  let plainLen ← pkcs7Unpad out
  .ok ⟨plainLen, some out⟩

section
variable (key : Bytes) (macKey : Option Bytes) (cap : Nat)

/-- mirrors read.c:286-330 -/
def cbcDecrypt : Except ReadErr Plain :=
  if v.auxLen < imageCbcIvLen then .error (.ota .tooSmall)
  else if v.payloadLen = 0 ∨ v.payloadLen % imageCbcBlockLen ≠ 0 then .error (.ota .arg)
  else if cap < v.payloadLen then .error .bufTooSmall
  else cbcPlain b (slice buf v.aux imageCbcIvLen) key (v.payloadOf buf)

/-- mirrors read.c:333-381 -/
def gcmDecrypt : Except ReadErr Plain :=
  if b.crypto then
    if v.auxLen < imageGcmNonceLen + imageGcmTagLen then .error (.ota .tooSmall)
    else if cap < v.payloadLen then .error .bufTooSmall
    else do
      let g ← orErr .decryptFailed (b.lib.gcm.starts (slice buf v.aux imageGcmNonceLen) key)
      let r ← orErr .decryptFailed (b.lib.gcm.update g (v.payloadOf buf))
      if b.lib.gcm.decryptFinish r.1 (slice buf (v.aux + imageGcmNonceLen) imageGcmTagLen)
          imageGcmTagLen then .ok ⟨v.payloadLen, some r.2⟩
      else .error (.ota .auth)
  else .error (.ota .unsupported)

/-- mirrors read.c:383-398 -/
def cbcDecryptDispatch : Except ReadErr Plain :=
  if b.crypto then cbcDecrypt b buf v key cap else .error (.ota .unsupported)

/-- mirrors read.c:401-481 -/
def cbcShaDecrypt : Except ReadErr Plain :=
  if b.crypto then
    if v.auxLen < imageCbcIvLen + imageHashLen then .error (.ota .tooSmall)
    else if v.payloadLen = 0 ∨ v.payloadLen % imageCbcBlockLen ≠ 0 then .error (.ota .arg)
    else if cap < v.payloadLen then .error .bufTooSmall
    else do
      let iv := slice buf v.aux imageCbcIvLen
      let h ← orErr (.ota .auth) (macKey.bind b.lib.hmac.starts)
      let h ← orErr (.ota .auth) (b.lib.hmac.update h iv)
      let h ← orErr (.ota .auth) (b.lib.hmac.update h (v.payloadOf buf))
      let mac ← orErr (.ota .auth) (b.lib.hmac.finish h)
      if ctEqual mac (slice buf (v.aux + imageCbcIvLen) imageHashLen) imageHashLen then
        cbcPlain b iv key (v.payloadOf buf)
      else .error (.ota .auth)
  else .error (.ota .unsupported)

end

end

def aesKeyLen (n : Nat) : Bool := n == 16 || n == 24 || n == 32

/-- mirrors read.c:490-506 (`check_crypto_args`), the key and the capacity on
success -/
def checkCryptoArgs (cfg : ReadCfg) (out : Option Nat) : Except ReadErr (Bytes × Nat) :=
  match cfg.key with
  | none => .error (.ota .arg)
  | some key =>
    if aesKeyLen key.length then
      match out with
      | none => .error (.ota .arg)
      | some cap => .ok (key, cap)
    else .error (.ota .arg)

/-- What `image_read_payload` leaves behind. -/
structure ReadResult where
  rc : Except ReadErr Plain
  /-- `*out_view` -/
  view : Option ImageView
  /-- `*out_crc_calc` -/
  crcCalc : Option UInt32

/-- The branches of `image_read_payload` -/
def readMode (b : Build) (buf : Bytes) (cfg : ReadCfg) (out : Option Nat) (v : ImageView) :
    Except ReadErr Plain :=
  match v.mode with
  | .crc =>
    if b.crc.calc (v.payloadOf buf) ≠ v.crcStored then .error (.ota .crc)
    else copyPlain buf v out
  | .sha => do
    checkSha b buf v
    copyPlain buf v out
  | .gcm => do
    let (key, cap) ← checkCryptoArgs cfg out
    gcmDecrypt b buf v key cap
  | .cbc => do
    let (key, cap) ← checkCryptoArgs cfg out
    cbcDecryptDispatch b buf v key cap
  | .cbcSha => do
    let (key, cap) ← checkCryptoArgs cfg out
    cbcShaDecrypt b buf v key cfg.hmacKey cap

/-- mirrors read.c:801-880 -/
def imageReadPayload (b : Build) (buf : Bytes) (cfg : ReadCfg) (out : Option Nat) : ReadResult :=
  match imageParse buf with
  | .error e => ⟨.error (.ota e), none, none⟩
  | .ok v =>
    ⟨readMode b buf cfg out v, some v,
      if v.mode = .crc then some (b.crc.calc (v.payloadOf buf)) else none⟩

/-! ## The image through a callback -/

/-- A read callback, with the code it returns where it fails. Its context never changes what
a request returns. -/
abbrev ReadFn := Nat → Nat → Except Int Bytes

def ReadFn.run (read : ReadFn) (off n : Nat) : Except ReadErr Bytes :=
  (read off n).mapError .callback

/-- The locals of `image_verify_stream` once the layout is known. -/
structure StreamLayout where
  info : ImageMeta
  payloadOff : Nat
  payloadLen : Nat
  crcStored : UInt32

section
variable (b : Build) (read : ReadFn) (imgSize : Nat)

/-- mirrors read.c:526-577 (`image_verify_stream` up to the modes) -/
def streamLayout : Except ReadErr StreamLayout := do
  let tail ← read.run (imgSize - imageMetaLen) imageMetaLen
  let m ← (metaDecode tail 0).mapError .ota
  let overhead ← (imageOverhead m.mode m.versionLen m.tagLen).mapError .ota
  if imgSize < overhead then .error (.ota .tooSmall)
  else do
    let crcOff := if m.isFront then 0 else imgSize - imageCrcLen - imageMetaLen
    let crcBytes ← read.run crcOff imageCrcLen
    .ok
      { info := m
        payloadOff :=
          if m.isFront then imageCrcLen + m.versionLen + m.tagLen + imageAuxLen m.mode else 0
        payloadLen := imgSize - overhead
        crcStored := le32At crcBytes 0 }

section
variable (cfg : ReadCfg) (scratchSize : Nat) (l : StreamLayout)

/-- `aux_off` of the branches; `len` is the length each of them writes down. -/
def StreamLayout.auxOff (imgSize len : Nat) : Nat :=
  if l.info.isFront then imageCrcLen + l.info.versionLen + l.info.tagLen
  else imgSize - imageCrcLen - imageMetaLen - l.info.versionLen - l.info.tagLen - len

/-- The loop of the branches over the payload. -/
def StreamLayout.feedPayload {σ : Type} (l : StreamLayout) (read : ReadFn) (scratchSize : Nat)
    (feed : σ → Bytes → Except ReadErr σ) (s : σ) : Except ReadErr σ :=
  feedLoop read.run feed scratchSize l.payloadLen l.payloadOff l.payloadLen s

/-- mirrors read.c:586-611 -/
def streamCrc :
    Except ReadErr Unit := do
  let cs ← l.feedPayload read scratchSize (fun s data => .ok (b.crc.feed s data)) b.crc.start
  if CrcModel.finish cs = l.crcStored then .ok () else .error (.ota .crc)

/-- mirrors read.c:617-667 -/
def streamSha (imgSize scratchSize : Nat) (l : StreamLayout) :
    Except ReadErr Unit := do
  let expect ← read.run (l.auxOff imgSize imageHashLen) imageHashLen
  let sh ← orErr .hashFailed (b.lib.sha256.starts ())
  let sh ← l.feedPayload read scratchSize
    (fun s data => orErr .hashFailed (b.lib.sha256.update s data)) sh
  let digest ← orErr .hashFailed (b.lib.sha256.finish sh)
  if ctEqual digest expect imageHashLen then .ok () else .error .hashMismatch

/-- mirrors read.c:668-724 -/
def streamGcm : Except ReadErr Unit :=
  match cfg.key with
  | none => .error (.ota .arg)
  | some key => do
    let auxOff := l.auxOff imgSize (imageGcmNonceLen + imageGcmTagLen)
    let nonce ← read.run auxOff imageGcmNonceLen
    let tag ← read.run (auxOff + imageGcmNonceLen) imageGcmTagLen
    let g ← orErr .decryptFailed (b.lib.gcm.starts nonce key)
    let g ← l.feedPayload read scratchSize b.lib.gcm.streamFeed g
    if b.lib.gcm.decryptFinish g tag imageGcmTagLen then .ok () else .error (.ota .auth)

/-- mirrors read.c:725-794 -/
def streamCbcSha : Except ReadErr Unit :=
  match cfg.hmacKey with
  | none => .error (.ota .arg)
  | some macKey => do
    let auxOff := l.auxOff imgSize (imageCbcIvLen + imageHashLen)
    let iv ← read.run auxOff imageCbcIvLen
    let hmac ← read.run (auxOff + imageCbcIvLen) imageHashLen
    let h ← orErr (.ota .auth) (b.lib.hmac.starts macKey)
    let h ← orErr (.ota .auth) (b.lib.hmac.update h iv)
    let h ← l.feedPayload read scratchSize
      (fun s data => orErr (.ota .auth) (b.lib.hmac.update s data)) h
    let mac ← orErr (.ota .auth) (b.lib.hmac.finish h)
    if ctEqual mac hmac imageHashLen then .ok () else .error (.ota .auth)

/-- mirrors read.c:584-798: the modes; CBC is answered in every build -/
def streamMode : Except ReadErr Unit :=
  match l.info.mode with
  | .crc => streamCrc b read scratchSize l
  | .cbc => .ok ()
  | .sha =>
    if b.crypto then streamSha b read imgSize scratchSize l else .error (.ota .unsupported)
  | .gcm =>
    if b.crypto then streamGcm b read imgSize cfg scratchSize l else .error (.ota .unsupported)
  | .cbcSha =>
    if b.crypto then streamCbcSha b read imgSize cfg scratchSize l
    else .error (.ota .unsupported)

end

end

/-- What `image_verify_stream` leaves behind. -/
structure VerifyResult where
  rc : Except ReadErr Unit
  /-- `*out_crc` -/
  outCrc : Option UInt32

/-- mirrors read.c:508-799 -/
def imageVerifyStream (b : Build) (read : ReadFn) (imgSize : Nat) (cfg : ReadCfg)
    (scratchSize : Nat) : VerifyResult :=
  if scratchSize < 16 ∨ imgSize < imageCrcLen + imageMetaLen then ⟨.error (.ota .arg), none⟩
  else match streamLayout read imgSize with
    | .error e => ⟨.error e, none⟩
    | .ok l => ⟨streamMode b read imgSize cfg scratchSize l, some l.crcStored⟩

end MiniTree.Ota
