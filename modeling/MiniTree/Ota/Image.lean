import MiniTree.Core.Bytes

/-!
# The image format (`bootutil/src/read.c`, `tools/main.py`)

`image_parse` cuts an image into its fields; `make_image` is the packer. The view keeps
offsets into the buffer where the source keeps pointers, and sizes are natural numbers
with `SIZE_MAX` as a bound where the source tests against it.

The ciphers, digests and the CRC of the packer come as the record `Packer`: what
`cryptography` and `hmac` compute is not part of the repository, only the lengths of
their outputs matter here. Any CRC function is allowed. A cipher that refuses its key
raises, which is `none`.
-/

namespace MiniTree.Ota

open MiniTree.Core

/-- mirrors bootutil/inc/read.h:52-59 (`image_check_t`) -/
inductive ImageCheck where
  | crc | sha | gcm | cbc | cbcSha
  deriving DecidableEq, Repr

/-- The enumeration's value, `_MODE_CODE` in the packer. -/
def ImageCheck.code : ImageCheck → UInt8
  | .crc => 0
  | .sha => 1
  | .gcm => 2
  | .cbc => 3
  | .cbcSha => 4

/-- The mode behind a value, if there is one. -/
def ImageCheck.ofCode (c : UInt8) : Option ImageCheck :=
  [.crc, .sha, .gcm, .cbc, .cbcSha].find? fun m => m.code == c

/-- `err.h`: the codes the modelled functions return. -/
inductive OtaErr where
  | arg | tooSmall | overflow | crc | auth | unsupported | io
  deriving DecidableEq, Repr

def imageCrcLen : Nat := 4
def imageMetaLen : Nat := 4
def imageMetaMagic : UInt8 := 0xA5

/-- `SIZE_MAX` of the 32-bit targets. -/
def sizeMax : Nat := 2 ^ 32 - 1

/-- mirrors bootutil/inc/read.h:62-75 (`image_view_t`) -/
structure ImageView where
  mode : ImageCheck
  isFront : Bool
  payload : Nat
  payloadLen : Nat
  aux : Nat
  auxLen : Nat
  version : Nat
  versionLen : Nat
  tag : Nat
  tagLen : Nat
  crcStored : UInt32
  deriving DecidableEq, Repr

/-- What `meta_decode` returns. -/
structure ImageMeta where
  mode : ImageCheck
  isFront : Bool
  versionLen : Nat
  tagLen : Nat
  deriving DecidableEq, Repr

/-- mirrors read.c:25-43 (`meta_decode`), the four bytes from `off` on -/
def metaDecode (buf : Bytes) (off : Nat) : Except OtaErr ImageMeta :=
  if byteAt buf off ≠ imageMetaMagic then .error .arg
  else match ImageCheck.ofCode (byteAt buf (off + 1) &&& 0x7F) with
    | none => .error .arg
    | some mode => .ok
      { mode := mode
        isFront := byteAt buf (off + 1) &&& 0x80 ≠ 0
        versionLen := (byteAt buf (off + 2)).toNat
        tagLen := (byteAt buf (off + 3)).toNat }

/-- mirrors read.c:45-66 -/
def imageAuxLen : ImageCheck → Nat
  | .crc => 0
  | .sha => 32
  | .gcm => 12 + 16
  | .cbc => 16
  | .cbcSha => 16 + 32

/-- mirrors read.c:68-95 -/
def imageOverhead (mode : ImageCheck) (versionLen tagLen : Nat) : Except OtaErr Nat :=
  let auxLen := imageAuxLen mode
  if sizeMax - imageCrcLen - imageMetaLen < versionLen ∨
      sizeMax - imageCrcLen - imageMetaLen - versionLen < tagLen ∨
      sizeMax - imageCrcLen - imageMetaLen - versionLen - tagLen < auxLen then .error .overflow
  else .ok (imageCrcLen + imageMetaLen + versionLen + tagLen + auxLen)

/-- The field offsets of `image_parse`: `crc | version | tag | aux | payload` in front,
`payload | aux | version | tag | crc` at the back. The first component is `crc_bytes`. -/
def imageFields (m : ImageMeta) (payloadLen : Nat) (crcAt : Nat → UInt32) : Nat × ImageView :=
  let auxLen := imageAuxLen m.mode
  if m.isFront then
    let version := imageCrcLen
    let tag := version + m.versionLen
    let aux := tag + m.tagLen
    (0, ⟨m.mode, m.isFront, aux + auxLen, payloadLen, aux, auxLen, version, m.versionLen, tag,
      m.tagLen, crcAt 0⟩)
  else
    let aux := payloadLen
    let version := aux + auxLen
    let tag := version + m.versionLen
    let crc := tag + m.tagLen
    (crc, ⟨m.mode, m.isFront, 0, payloadLen, aux, auxLen, version, m.versionLen, tag, m.tagLen,
      crcAt crc⟩)

/-- mirrors read.c:97-166 -/
def imageParse (buf : Bytes) : Except OtaErr ImageView :=
  if buf.length < imageCrcLen + imageMetaLen then .error .arg
  else do
    let m ← metaDecode buf (buf.length - imageMetaLen)
    let overhead ← imageOverhead m.mode m.versionLen m.tagLen
    if buf.length < overhead then .error .tooSmall
    else .ok (imageFields m (buf.length - overhead) (le32At buf)).2

/-! ## The packer -/

/-- What the packer computes with, as functions of their inputs; a cipher draws its nonce
or initialisation vector itself. -/
structure Packer where
  gcmEncrypt : Bytes → Bytes → Option (Bytes × Bytes × Bytes)
  cbcEncrypt : Bytes → Bytes → Option (Bytes × Bytes)
  hmacSha256 : Bytes → Bytes → Bytes
  sha256 : Bytes → Bytes
  crc : Bytes → UInt32
  nonce_length : ∀ {fw key payload nonce tag},
    gcmEncrypt fw key = some (payload, nonce, tag) → nonce.length = 12
  tag_length : ∀ {fw key payload nonce tag},
    gcmEncrypt fw key = some (payload, nonce, tag) → tag.length = 16
  iv_length : ∀ {fw key payload iv}, cbcEncrypt fw key = some (payload, iv) → iv.length = 16
  hmac_length : ∀ key data, (hmacSha256 key data).length = 32
  sha_length : ∀ data, (sha256 data).length = 32

/-- mirrors main.py:84, 92-107: the payload and the auxiliary data -/
def Packer.payloadAux (k : Packer) (mode : ImageCheck) (fw key macKey : Bytes) :
    Option (Bytes × Bytes) :=
  let macKey := if macKey = [] then key else macKey
  match mode with
  | .gcm => (k.gcmEncrypt fw key).map fun r => (r.1, r.2.1 ++ r.2.2)
  | .cbc => (k.cbcEncrypt fw key).map fun r => (r.1, r.2)
  | .cbcSha => (k.cbcEncrypt fw key).map fun r => (r.1, r.2 ++ k.hmacSha256 macKey (r.2 ++ r.1))
  | .sha => some (fw, k.sha256 fw)
  | .crc => some (fw, [])

/-- mirrors main.py:126-128: the trailing meta -/
def imageMetaBytes (mode : ImageCheck) (isFront : Bool) (version tag : Bytes) : Bytes :=
  [imageMetaMagic, mode.code ||| (if isFront then 0x80 else 0), .ofNat version.length,
    .ofNat tag.length]

/-- mirrors main.py:112-128: the fields in the order of the layout -/
def imageBytes (mode : ImageCheck) (isFront : Bool) (version tag payload aux : Bytes)
    (crc : UInt32) : Bytes :=
  (if isFront then toLe32 crc ++ version ++ tag ++ aux ++ payload
    else payload ++ aux ++ version ++ tag ++ toLe32 crc) ++ imageMetaBytes mode isFront version tag

/-- mirrors main.py:51-134 (`make_image`), the file contents in and out -/
def makeImage (k : Packer) (fw version tag : Bytes) (isFront : Bool) (mode : ImageCheck)
    (key macKey : Bytes) : Option Bytes :=
  if 0xFF < version.length ∨ 0xFF < tag.length then none
  else (k.payloadAux mode fw key macKey).map fun r =>
    imageBytes mode isFront version tag r.1 r.2 (k.crc r.1)

end MiniTree.Ota
