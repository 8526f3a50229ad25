import MiniTree.Ota.CrcEngines

/-!
# Streams and the packer's CRC (`algorithm/src/crc.c`, `tools/m_crc/image_crc.py`)

Streams that share the static table, and `crc_generic` on Python's integers with its cache of
tables.

**Results.** `engines_agree`: in every run of any streams, in either mode, each stream's result is
the CRC of what it was fed, whatever the others did in between, and `crc_generic` returns the same
number.
-/

namespace MiniTree.Ota.Crc

open MiniTree.Core Function List BitVec Nat Option

/-! ## The static table -/

def tableOf (poly : BitVec 32) (width : Nat) (refin : Bool) : List (BitVec 32) :=
  (List.range 256).map fun i => tableEntry poly width refin (BitVec.ofNat 32 i)

/-- The static table and the parameters it was built for. -/
structure Table where
  ready : Bool
  poly : BitVec 32
  width : Nat
  refin : Bool
  entries : List (BitVec 32)
  built : ready = true → entries = tableOf poly width refin

namespace Table

def initial : Table := ⟨false, 0, 0, false, List.replicate 256 0, nofun⟩

/-- mirrors crc.c:123-157 (`crc_table_build`) -/
def build (poly : BitVec 32) (width : Nat) (refin : Bool) : Table :=
  ⟨true, poly, width, refin, tableOf poly width refin, fun _ => rfl⟩

/-- mirrors crc.c:181-186 -/
def ensure (t : Table) (poly : BitVec 32) (width : Nat) (refin : Bool) : Table :=
  if t.ready = false ∨ t.width ≠ width ∨ t.refin ≠ refin ∨ t.poly ≠ poly then build poly width refin
  else t

end Table

def lookupByte (entries : List (BitVec 32)) (refin : Bool) (width : Nat) (mask reg : BitVec 32)
    (byte : UInt8) : BitVec 32 :=
  if refin then (reg >>> 8) ^^^ entries.getD ((reg ^^^ wordOf byte) &&& 0xFF).toNat 0
  else ((reg <<< 8) &&& mask) ^^^
    entries.getD (((reg >>> (width - 8)) ^^^ wordOf byte).setWidth 8).toNat 0

/-- The table engine with its static table.
mirrors crc.c:170-206 (`crc_table_engine`) -/
def cachedEngine (t : Table) (data : Bytes) (reg : BitVec 32) (refin : Bool) (poly : BitVec 32)
    (width : Nat) (mask : BitVec 32) : Table × BitVec 32 :=
  if width < 8 then (t, bitwiseEngine data reg refin poly width mask)
  else
    let t := t.ensure poly width refin
    (t, data.foldl (lookupByte t.entries refin width mask) reg)

/-! ## Streams -/

/-- `CRC_MODE` -/
inductive Mode where
  | bitwise
  | table
  deriving DecidableEq, Repr

/-- mirrors crc.c:263-279 (`crc_stream_feed`) -/
def feedStream (mode : Mode) (t : Table) (s : Stream) (data : Bytes) : Table × Stream :=
  match mode with
  | .bitwise => (t, streamFeed s data)
  | .table =>
    if s.width = 0 ∨ 32 < s.width then (t, s)
    else
      let r := cachedEngine t data s.reg s.refin s.poly s.width (maskOf s.width)
      (r.1, { s with reg := r.2 })

inductive Event where
  | start (i : Nat) (m : Model)
  | feed (i : Nat) (data : Bytes)

def Event.stream : Event → Nat
  | start i _ => i
  | feed i _ => i

structure World where
  table : Table
  streams : Nat → Stream

def Model.start (m : Model) : Stream := streamStart m.init m.refin m.refout m.xorOut m.poly m.width

/-- A stream that was not started. -/
def idle : Stream := ⟨0, 0, 0, 0, false, false⟩

namespace World

def initial : World := ⟨.initial, fun _ => idle⟩

def step (mode : Mode) (s : World) : Event → World
  | .start i m => { s with streams := update s.streams i m.start }
  | .feed i data =>
    let r := feedStream mode s.table (s.streams i) data
    ⟨r.1, update s.streams i r.2⟩

def run (mode : Mode) (events : List Event) : World := events.foldl (step mode) initial

end World

/-- What a stream was started with last and fed since. -/
def history (i : Nat) (events : List Event) : Option (Model × Bytes) :=
  events.foldl (fun h e => match e with
    | .start j m => if j = i then some (m, []) else h
    | .feed j data => if j = i then h.map fun x => (x.1, x.2 ++ data) else h) none

/-! ## The packer -/

namespace Python

/-- mirrors image_crc.py:7-13 (`_reflect`), the loop -/
def reflectLoop : Nat → Nat → Nat → Nat
  | 0, result, _ => result
  | n + 1, result, x => reflectLoop n ((result <<< 1) ||| (x &&& 1)) (x >>> 1)

def reflect (x width : Nat) : Nat := reflectLoop width 0 x

def shiftRight (poly reg : Nat) : Nat := if reg &&& 1 ≠ 0 then (reg >>> 1) ^^^ poly else reg >>> 1

def shiftLeft (poly mask top reg : Nat) : Nat :=
  (if reg &&& top ≠ 0 then (reg <<< 1) ^^^ poly else reg <<< 1) &&& mask

/-- mirrors image_crc.py:29-47, the entries -/
def entries (poly width : Nat) (refin : Bool) : List Nat :=
  let mask := (1 <<< width) - 1
  if refin then
    (List.range 256).map fun i => (shiftRight (reflect poly width))^[8] i &&& mask
  else
    (List.range 256).map fun i =>
      (shiftLeft poly mask (1 <<< (width - 1)))^[8] ((i <<< (width - 8)) &&& mask)

structure Key where
  poly : Nat
  width : Nat
  refin : Bool
  deriving DecidableEq, Repr

/-- `_table_cache` -/
structure Cache where
  get : Key → Option (List Nat)
  built : ∀ k t, get k = some t → t = entries k.poly k.width k.refin

namespace Cache

def put (c : Cache) (k : Key) : Cache where
  get := update c.get k (some (entries k.poly k.width k.refin))
  built := by
    intro k' t h
    by_cases hk : k' = k
    · rw [hk, update_self] at h
      cases h
      rw [hk]
    · rw [update_of_ne hk] at h
      exact c.built k' t h

end Cache

/-- mirrors image_crc.py:16-51 -/
def buildTable (c : Cache) (poly width : Nat) (refin : Bool) : List Nat × Cache :=
  match c.get ⟨poly, width, refin⟩ with
  | some table => (table, c)
  | none => (entries poly width refin, c.put ⟨poly, width, refin⟩)

def wideByte (table : List Nat) (refin : Bool) (width reg : Nat) (byte : UInt8) : Nat :=
  let mask := (1 <<< width) - 1
  if refin then ((reg >>> 8) ^^^ table.getD ((reg ^^^ byte.toNat) &&& 0xFF) 0) &&& mask
  else (((reg <<< 8) &&& mask) ^^^ table.getD (((reg >>> (width - 8)) ^^^ byte.toNat) &&& 0xFF) 0)
    &&& mask

/-- A byte bit by bit; `poly` is reflected where `refin` is set. -/
def narrowByte (poly : Nat) (refin : Bool) (width reg : Nat) (byte : UInt8) : Nat :=
  let mask := (1 <<< width) - 1
  if refin then (List.range 8).foldl (fun reg i =>
    shiftRight poly (reg ^^^ ((byte.toNat >>> i) &&& 1)) &&& mask) reg
  else (List.range 8).foldl (fun reg i => shiftLeft poly mask (1 <<< (width - 1))
    (reg ^^^ (((byte.toNat >>> (7 - i)) &&& 1) <<< (width - 1)))) reg

/-- mirrors image_crc.py:54-110 -/
def crcGeneric (c : Cache) (data : Bytes) (init : Nat) (refin refout : Bool) (xorOut poly width : Nat) :
    Nat × Cache :=
  let mask := (1 <<< width) - 1
  let reg := if refin then reflect init width &&& mask else init &&& mask
  let r : Nat × Cache :=
    if 8 ≤ width then
      let t := buildTable c poly width refin
      (data.foldl (wideByte t.1 refin width) reg, t.2)
    else
      let poly := if refin then reflect poly width else poly
      (data.foldl (narrowByte poly refin width) reg, c)
  let reg := if refin ≠ refout then reflect r.1 width else r.1
  ((reg ^^^ xorOut) &&& mask, r.2)

end Python

/-! ## The table's contents -/

theorem Table.ensure_entries (t : Table) (poly : BitVec 32) (width : Nat) (refin : Bool) :
    (t.ensure poly width refin).entries = tableOf poly width refin := by
  unfold Table.ensure
  split
  · rfl
  rename_i h
  push Not at h
  obtain ⟨hr, hw, hi, hp⟩ := h
  rw [t.built (eq_true_of_ne_false hr), hw, hi, hp]

theorem getD_tableOf (poly : BitVec 32) (width : Nat) (refin : Bool) {i : Nat} (hi : i < 256) :
    (tableOf poly width refin).getD i 0 = tableEntry poly width refin (BitVec.ofNat 32 i) := by
  unfold tableOf
  rw [getD_eq_getElem?_getD, List.getElem?_map, List.getElem?_range hi]
  rfl

theorem lookupByte_eq (refin : Bool) (poly : BitVec 32) (width : Nat) (mask reg : BitVec 32)
    (byte : UInt8) : lookupByte (tableOf poly width refin) refin width mask reg byte =
      tableByte refin poly width mask reg byte := by
  have hlow : ∀ x : BitVec 32, (x.setWidth 8).toNat = x.toNat % 256 := fun x => toNat_setWidth ..
  have hand : ∀ x : BitVec 32, (x &&& 0xFF).toNat = x.toNat % 256 := fun x => by
    rw [and_low_byte, toNat_ofNat, mod_eq_of_lt (by omega)]
  unfold lookupByte tableByte
  rw [hlow, hand, getD_tableOf _ _ _ (mod_lt _ (by decide)),
    getD_tableOf _ _ _ (mod_lt _ (by decide)), ← and_low_byte, ← and_low_byte]

/-- Whatever the table holds, the engine computes with that of its parameters. -/
theorem cachedEngine_eq (t : Table) (data : Bytes) (reg : BitVec 32) (refin : Bool)
    (poly : BitVec 32) (width : Nat) (mask : BitVec 32) :
    (cachedEngine t data reg refin poly width mask).2 = tableEngine data reg refin poly width mask := by
  have hbyte : lookupByte (tableOf poly width refin) refin width mask =
      tableByte refin poly width mask :=
    funext fun reg => funext fun byte => lookupByte_eq refin poly width mask reg byte
  unfold cachedEngine tableEngine
  split
  · rfl
  · dsimp only
    rw [t.ensure_entries, hbyte]

/-! ## The packer's engines -/

namespace Python

section

variable {w : Nat} {poly reg : BitVec w}

theorem and_mask (x : Nat) : x &&& ((1 <<< w) - 1) = x % 2 ^ w := by
  rw [one_shiftLeft, and_two_pow_sub_one_eq_mod]

theorem and_mask_toNat (x : BitVec w) : x.toNat &&& ((1 <<< w) - 1) = x.toNat := by
  rw [and_mask, mod_eq_of_lt x.isLt]

theorem testBit_reflectLoop (n result x i : Nat) : (reflectLoop n result x).testBit i =
    if i < n then x.testBit (n - 1 - i) else result.testBit (i - n) := by
  induction n generalizing result x with
  | zero => rfl
  | succ n ih =>
    rw [reflectLoop, ih, Nat.add_sub_cancel]
    rcases Nat.lt_trichotomy i n with hi | rfl | hi
    · rw [if_pos hi, if_pos (by omega), testBit_shiftRight,
        show 1 + (n - 1 - i) = n - i by omega]
    · simp
    rw [if_neg (by omega), if_neg (by omega), testBit_or, testBit_shiftLeft,
      testBit_and, show i - n - 1 = i - (n + 1) by omega]
    have hone : Nat.testBit 1 (i - n) = false :=
      testBit_lt_two_pow (Nat.one_lt_two_pow (by omega))
    simp [show 1 ≤ i - n by omega, hone]

theorem reflect_eq (x : Nat) : reflect x w = (BitVec.ofNat w x).reverse.toNat := by
  apply eq_of_testBit_eq
  intro i
  unfold reflect
  rw [testBit_reflectLoop, testBit_toNat]
  by_cases hi : i < w
  · rw [if_pos hi, Crc.getLsbD_reverse_of_lt _ hi, getLsbD_ofNat, decide_eq_true (by omega),
      Bool.true_and]
  · rw [if_neg hi, getLsbD_of_ge _ _ (not_lt.mp hi), zero_testBit]

theorem and_one_ne_zero (x : Nat) : (x &&& 1 ≠ 0) ↔ x.testBit 0 = true := by
  rw [and_one_is_mod, testBit_zero, decide_eq_true_iff]
  omega

theorem shiftRight_toNat : shiftRight poly.toNat reg.toNat = (Crc.step poly reg).toNat := by
  unfold shiftRight Crc.step
  rw [if_congr (and_one_ne_zero _) rfl rfl, testBit_toNat]
  split
  · rw [toNat_xor, toNat_ushiftRight]
  · rw [toNat_ushiftRight]

theorem shiftLeft_toNat (p : Nat) : shiftLeft p ((1 <<< w) - 1) (1 <<< (w - 1)) reg.toNat =
      (Crc.shiftIn (BitVec.ofNat w p) reg false).toNat := by
  unfold shiftLeft Crc.shiftIn
  rw [and_mask, if_congr (and_top_ne_zero reg) rfl rfl, Bool.xor_false]
  split
  · rw [xor_mod_two_pow, toNat_xor, toNat_shiftLeft, toNat_ofNat]
  · rw [toNat_shiftLeft]

theorem getD_entries_right (h8 : 8 ≤ w) (p : Nat) {i : Nat} (hi : i < 256) :
    (entries p w true).getD i 0 =
      ((Crc.step (BitVec.ofNat w p).reverse)^[8] (BitVec.ofNat w i)).toNat := by
  have hsemi : Function.Semiconj (fun r : BitVec w => r.toNat) (Crc.step (BitVec.ofNat w p).reverse)
      (shiftRight (BitVec.ofNat w p).reverse.toNat) := fun r => shiftRight_toNat.symm
  have hofNat : i = (BitVec.ofNat w i).toNat := by rw [toNat_ofNat, mod_eq_of_lt (lt_two_pow h8 hi)]
  unfold entries
  dsimp only
  rw [if_pos rfl, getD_eq_getElem?_getD, List.getElem?_map, List.getElem?_range hi,
    map_some, getD_some, reflect_eq]
  conv => lhs; arg 1; arg 3; rw [hofNat]
  rw [← (hsemi.iterate_right 8).eq, and_mask_toNat]

theorem getD_entries_left (h8 : 8 ≤ w) (p : Nat) {i : Nat} (hi : i < 256) :
    (entries p w false).getD i 0 =
      ((Crc.shiftIn (BitVec.ofNat w p) · false)^[8] (BitVec.ofNat w i <<< (w - 8))).toNat := by
  have hsemi : Function.Semiconj (fun r : BitVec w => r.toNat)
      (Crc.shiftIn (BitVec.ofNat w p) · false) (shiftLeft p ((1 <<< w) - 1) (1 <<< (w - 1))) :=
    fun r => (shiftLeft_toNat p).symm
  have hofNat : (i <<< (w - 8)) &&& ((1 <<< w) - 1) = (BitVec.ofNat w i <<< (w - 8)).toNat := by
    rw [and_mask, toNat_shiftLeft, toNat_ofNat, mod_eq_of_lt (lt_two_pow h8 hi)]
  unfold entries
  dsimp only
  rw [if_neg Bool.false_ne_true, getD_eq_getElem?_getD, List.getElem?_map,
    List.getElem?_range hi, map_some, getD_some, hofNat, ← (hsemi.iterate_right 8).eq]

theorem and_byte (x : Nat) : x &&& 0xFF = x % 256 := and_two_pow_sub_one_eq_mod x 8

theorem wideByte_eq (h8 : 8 ≤ w) (p : Nat) (refin : Bool) (byte : UInt8) :
    wideByte (entries p w refin) refin w (held refin reg).toNat byte =
      (held refin (byteIn refin (BitVec.ofNat w p) reg byte)).toNat := by
  unfold wideByte held
  cases refin with
  | true =>
    simp only [if_true]
    rw [and_byte, getD_entries_right h8 p (mod_lt _ (by decide)), ← toNat_ushiftRight,
      ← toNat_xor, ← step_byte h8, ← reverse_byteIn h8, and_mask_toNat]
  | false =>
    simp only [Bool.false_eq_true, if_false]
    rw [and_byte, getD_entries_left h8 p (mod_lt _ (by decide)), and_mask (reg.toNat <<< 8),
      ← toNat_shiftLeft, ← toNat_xor, ← shiftIn_byte h8, and_mask_toNat]

theorem toNat_bit (h0 : 0 < w) (byte : UInt8) (i : Nat) :
    (byte.toNat >>> i) &&& 1 = (Crc.bit (byte.toBitVec.getLsbD i) : BitVec w).toNat := by
  have hlt : (byte.toBitVec.getLsbD i).toNat < 2 ^ w :=
    lt_of_lt_of_le (Bool.toNat_lt _) (show 2 ^ 1 ≤ 2 ^ w from Nat.pow_le_pow_right (by decide) h0)
  unfold Crc.bit
  rw [toNat_setWidth, toNat_ofBool, mod_eq_of_lt hlt, and_one_is_mod,
    shiftRight_eq_div_pow, ← toNat_testBit]
  rfl

theorem shiftLeft_bit (h0 : 0 < w) (b : Bool) :
    (Crc.bit b : BitVec w).toNat <<< (w - 1) = (Crc.bit b <<< (w - 1) : BitVec w).toNat := by
  have hpow : 2 ^ w = 2 * 2 ^ (w - 1) := by
    rw [← Nat.pow_succ', Nat.succ_eq_add_one, Nat.sub_add_cancel h0]
  rw [toNat_shiftLeft, Nat.mod_eq_of_lt]
  rw [Nat.shiftLeft_eq, hpow]
  exact Nat.mul_lt_mul_of_pos_right (Crc.toNat_bit_lt b) (Nat.two_pow_pos _)

theorem narrowByte_eq (h0 : 0 < w) (p : Nat) (refin : Bool) (byte : UInt8) :
    narrowByte (if refin then reflect p w else p) refin w (held refin reg).toNat byte =
      (held refin (byteIn refin (BitVec.ofNat w p) reg byte)).toNat := by
  unfold narrowByte held
  cases refin with
  | true =>
    simp only [if_true]
    rw [reverse_byteIn_foldl, bitsOf, foldl_map]
    refine foldl_hom (fun r : BitVec w => r.toNat) fun x i => ?_
    rw [toNat_bit h0, ← toNat_xor, reflect_eq, shiftRight_toNat, and_mask_toNat]
    rfl
  | false =>
    simp only [Bool.false_eq_true, if_false]
    unfold byteIn bitsOf
    rw [foldl_map]
    refine foldl_hom (fun r : BitVec w => r.toNat) fun x i => ?_
    rw [toNat_bit h0, shiftLeft_bit h0, ← toNat_xor, shiftLeft_toNat, Crc.shiftIn_bit]
    rfl

end

end Python

/-! ## Whole messages -/

theorem toNat_reflectLoop (n : Nat) (result value : BitVec 32) :
    (reflectLoop n result value).toNat = Python.reflectLoop n result.toNat value.toNat % 2 ^ 32 := by
  induction n generalizing result value with
  | zero => exact (mod_eq_of_lt result.isLt).symm
  | succ n ih =>
    rw [reflectLoop, ih, Python.reflectLoop]
    apply eq_of_testBit_eq
    intro i
    rw [testBit_mod_two_pow, testBit_mod_two_pow, Python.testBit_reflectLoop,
      Python.testBit_reflectLoop, toNat_or, toNat_shiftLeft, testBit_or, testBit_or,
      testBit_mod_two_pow]
    by_cases hi : i < 32
    · rw [decide_eq_true hi, decide_eq_true (show i - n < 32 by omega)]
      rfl
    · rw [decide_eq_false hi]
      rfl

theorem reflect_eq (value : BitVec 32) (w : Nat) :
    reflect value w = (value.setWidth w).reverse.setWidth 32 := by
  apply eq_of_toNat_eq
  unfold reflect
  rw [toNat_reflectLoop, toNat_setWidth, ← ofNat_toNat]
  exact congrArg (· % 2 ^ 32) (Python.reflect_eq value.toNat)

namespace Model

variable (m : Model)

/-- The stream behind the start and `data`. -/
def streamAt (data : Bytes) : Stream := ⟨(held m.refin (m.register data)).setWidth 32,
    (held m.refin (m.poly.setWidth m.width)).setWidth 32, m.xorOut, m.width, m.refin, m.refout⟩

theorem width_ok : ¬ (m.width = 0 ∨ 32 < m.width) := by
  have h0 := m.width_pos
  have h1 := m.width_le
  omega

theorem streamAt_ok (data : Bytes) :
    ¬ ((m.streamAt data).width = 0 ∨ 32 < (m.streamAt data).width) := m.width_ok

theorem register_append (data more : Bytes) : m.register (data ++ more) =
    more.foldl (byteIn m.refin (m.poly.setWidth m.width)) (m.register data) := by
  unfold register
  rw [foldl_append]

theorem start_eq : m.start = m.streamAt [] := by
  have hback : ∀ x : BitVec m.width, x.setWidth 32 &&& maskOf m.width = x.setWidth 32 := fun x => by
    rw [and_maskOf m.width_le, setWidth_back m.width_le]
  unfold start streamStart streamAt held
  rw [if_neg m.width_ok]
  cases m.refin with
  | true =>
    simp only [if_true]
    rw [reflect_eq, reflect_eq, hback, hback]
    rfl
  | false =>
    simp only [Bool.false_eq_true, if_false]
    rw [and_maskOf m.width_le, and_maskOf m.width_le]
    rfl

theorem foldl_held {f : BitVec 32 → UInt8 → BitVec 32}
    (hf : ∀ (reg : BitVec m.width) byte, f ((held m.refin reg).setWidth 32) byte =
      (held m.refin (byteIn m.refin (m.poly.setWidth m.width) reg byte)).setWidth 32)
    (data more : Bytes) : more.foldl f ((held m.refin (m.register data)).setWidth 32) =
      (held m.refin (m.register (data ++ more))).setWidth 32 := by
  rw [register_append]
  exact foldl_hom (fun r : BitVec m.width => (held m.refin r).setWidth 32) hf

theorem bitwise_eq (data more : Bytes) :
    bitwiseEngine more (m.streamAt data).reg m.refin (m.streamAt data).poly m.width
      (maskOf m.width) = (m.streamAt (data ++ more)).reg :=
  m.foldl_held (fun _ byte => engineByte_eq m.width_pos m.width_le m.refin byte) data more

/-- A stream is fed the same in either mode, whatever the table holds. -/
theorem feed_eq (mode : Mode) (t : Table) (data more : Bytes) :
    (feedStream mode t (m.streamAt data) more).2 = m.streamAt (data ++ more) := by
  unfold feedStream
  cases mode with
  | bitwise =>
    dsimp only
    rw [streamFeed, if_neg (m.streamAt_ok data)]
    exact congrArg (fun reg => ({ m.streamAt data with reg := reg } : Stream)) (m.bitwise_eq data more)
  | table =>
    dsimp only
    rw [if_neg (m.streamAt_ok data)]
    refine congrArg (fun reg => ({ m.streamAt data with reg := reg } : Stream)) ?_
    rw [cachedEngine_eq]
    unfold tableEngine
    split
    · exact m.bitwise_eq data more
    · rename_i h8
      exact m.foldl_held
        (fun _ byte => tableByte_eq (not_lt.mp h8) m.width_le m.refin byte) data more

theorem finish_eq (data : Bytes) : streamFinish (m.streamAt data) = (m.crc data).setWidth 32 := by
  unfold streamFinish finalize crc
  rw [if_neg (m.streamAt_ok data)]
  refine (and_maskOf m.width_le _).trans (congrArg (BitVec.setWidth 32) ?_)
  rw [setWidth_xor]
  refine congrArg (· ^^^ _) ?_
  unfold streamAt held
  dsimp only
  cases m.refin <;> cases m.refout <;>
    simp [reflect_eq, setWidth_back m.width_le]

end Model

/-! ## Runs -/

theorem history_concat (i : Nat) (events : List Event) (e : Event) : history i (events ++ [e]) =
    match e with
    | .start j m => if j = i then some (m, []) else history i events
    | .feed j data =>
      if j = i then (history i events).map fun x => (x.1, x.2 ++ data) else history i events := by
  unfold history
  rw [foldl_append]
  rfl

def streamOf : Option (Model × Bytes) → Stream
  | none => idle
  | some h => h.1.streamAt h.2

/-- Every stream is that of its own history. -/
theorem run_streams (mode : Mode) (events : List Event) (i : Nat) :
    (World.run mode events).streams i = streamOf (history i events) := by
  induction events using List.reverseRecOn generalizing i with
  | nil => rfl
  | append_singleton events e ih =>
    have hrun : World.run mode (events ++ [e]) = (World.run mode events).step mode e := by
      unfold World.run
      rw [foldl_append]
      rfl
    rw [hrun, history_concat]
    cases e with
    | start j m =>
      dsimp only [World.step]
      by_cases hj : j = i
      · rw [if_pos hj, hj, update_self, m.start_eq]
        rfl
      · rw [if_neg hj, update_of_ne (Ne.symm hj), ih]
    | feed j data =>
      dsimp only [World.step]
      by_cases hj : j = i
      · rw [if_pos hj, hj, update_self, ih]
        cases history i events with
        | none => cases mode <;> rfl
        | some h => exact h.1.feed_eq mode _ h.2 data
      · rw [if_neg hj, update_of_ne (Ne.symm hj), ih]

theorem history_filter (i : Nat) (events : List Event) :
    history i (events.filter fun e => e.stream = i) = history i events := by
  induction events using List.reverseRecOn with
  | nil => rfl
  | append_singleton events e ih =>
    rw [filter_append, history_concat]
    by_cases he : e.stream = i
    · rw [filter_singleton, decide_eq_true he, cond_true, history_concat, ih]
    rw [filter_singleton, decide_eq_false he, cond_false, append_nil, ih]
    cases e with
    | start j m => exact (if_neg he).symm
    | feed j data => exact (if_neg he).symm

/-! ## The packer -/

namespace Python

theorem buildTable_eq (c : Cache) (poly width : Nat) (refin : Bool) :
    (buildTable c poly width refin).1 = entries poly width refin := by
  unfold buildTable
  split
  · rename_i t ht
    exact c.built _ _ ht
  · rfl

theorem crcGeneric_eq (m : Model) (c : Cache) (data : Bytes) :
    (crcGeneric c data m.init.toNat m.refin m.refout m.xorOut.toNat m.poly.toNat m.width).1 =
      (m.crc data).toNat := by
  have hfold : ∀ f : Nat → UInt8 → Nat, (∀ (reg : BitVec m.width) byte,
      f (held m.refin reg).toNat byte =
        (held m.refin (byteIn m.refin (m.poly.setWidth m.width) reg byte)).toNat) →
      data.foldl f (held m.refin (m.init.setWidth m.width)).toNat =
        (held m.refin (m.register data)).toNat := by
    intro f hf
    exact foldl_hom (fun r : BitVec m.width => (held m.refin r).toNat) hf
  have hinit : (if m.refin then reflect m.init.toNat m.width &&& ((1 <<< m.width) - 1)
      else m.init.toNat &&& ((1 <<< m.width) - 1)) = (held m.refin (m.init.setWidth m.width)).toNat := by
    unfold held
    split
    · rw [reflect_eq, ofNat_toNat, and_mask_toNat]
    · rw [and_mask, toNat_setWidth]
  have hreg : (if 8 ≤ m.width then
      (data.foldl (wideByte (buildTable c m.poly.toNat m.width m.refin).1 m.refin m.width)
        (held m.refin (m.init.setWidth m.width)).toNat, (buildTable c m.poly.toNat m.width m.refin).2)
      else (data.foldl (narrowByte (if m.refin then reflect m.poly.toNat m.width else m.poly.toNat)
        m.refin m.width) (held m.refin (m.init.setWidth m.width)).toNat, c)).1 =
        (held m.refin (m.register data)).toNat := by
    split
    · rename_i h8
      refine hfold _ fun reg byte => ?_
      rw [buildTable_eq, wideByte_eq h8, ofNat_toNat]
    · refine hfold _ fun reg byte => ?_
      rw [narrowByte_eq m.width_pos, ofNat_toNat]
  unfold crcGeneric
  dsimp only
  rw [hinit, hreg, and_mask, xor_mod_two_pow, ← toNat_setWidth]
  unfold Model.crc held
  rw [toNat_xor]
  refine congrArg (· ^^^ _) ?_
  cases m.refin <;> cases m.refout <;>
    simp [reflect_eq, mod_eq_of_lt (BitVec.isLt _)]

end Python

theorem engines_agree (mode : Mode) :
    (∀ (events : List Event) (i : Nat), streamFinish ((World.run mode events).streams i) =
      ((history i events).map fun h => (h.1.crc h.2).setWidth 32).getD 0 ∧
      (World.run mode events).streams i =
        (World.run mode (events.filter fun e => e.stream = i)).streams i) ∧
    ∀ (m : Model) (c : Python.Cache) (data : Bytes),
      (Python.crcGeneric c data m.init.toNat m.refin m.refout m.xorOut.toNat m.poly.toNat m.width).1 =
        (m.crc data).toNat := by
  refine ⟨fun events i => ⟨?_, ?_⟩, Python.crcGeneric_eq⟩
  · rw [run_streams]
    cases history i events with
    | none => rfl
    | some h => exact h.1.finish_eq h.2
  · rw [run_streams, run_streams, history_filter]

end MiniTree.Ota.Crc
