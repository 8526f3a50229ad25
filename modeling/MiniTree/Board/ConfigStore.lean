import MiniTree.Core.Bytes
import MiniTree.Core.Crc

/-!
# The configuration store (`board/src/config_store.c`)

A table of at most eight entries, loaded from a JSON text and then from the blob that was last
committed. A C string is the list of its bytes before the terminator. `atoi` and `atof` are the C
library's and parameters; a float is its 32 bits. The storage does what it is told: operations of the
HAL that fail are left out, as are the write hook and the health value.
-/

namespace MiniTree.Config

open MiniTree.Core List

def ascii (s : String) : Bytes := s.toList.map fun c => c.toNat.toUInt8

/-- mirrors config_store.c:41 -/
def maxEntries : Nat := 8

def blobMax : Nat := 4096

def flagA : UInt8 := 0xA0

def flagB : UInt8 := 0x0B

/-- A type with its value; `unknown` is a type byte of a blob that is no `cs_type_t`. -/
inductive Value where
  | int (i : UInt32)
  | float (bits : UInt32)
  | bool (b : Bool)
  | string (s : Bytes)
  | unknown (type : UInt8) (h : 4 ≤ type)
  deriving DecidableEq

/-- A string fits `char s[64]`. -/
def Value.Short : Value → Prop
  | .string s => s.length ≤ 63
  | _ => True

/-- mirrors config_store.c:55-65 (`struct cs_entry`) -/
structure Entry where
  key : Bytes
  value : Value
  key_short : key.length ≤ 31
  value_short : value.Short
  deriving DecidableEq

/-- What a value becomes in an entry.
mirrors config_store.c:673-674 -/
def Value.stored : Value → Value
  | .string s => .string (s.take 63)
  | v => v

theorem Value.stored_short (v : Value) : v.stored.Short := by
  cases v with
  | string s => exact length_take_le 63 s
  | _ => exact trivial

/-- An entry as it is made for a key and a value, both cut to their fields.
mirrors config_store.c:178-189 (`add_entry`) -/
def mkEntry (key : Bytes) (v : Value) : Entry :=
  ⟨key.take 31, v.stored, length_take_le 31 key, v.stored_short⟩

/-- mirrors config_store.c:164-170 -/
def findEntry (entries : List Entry) (key : Bytes) : Option Entry := entries.find? (·.key = key)

/-- mirrors config_store.c:178-189 -/
def addEntry (entries : List Entry) (e : Entry) : List Entry :=
  if maxEntries ≤ entries.length then entries else entries ++ [e]

/-! ## The JSON source -/

/-- The C library's functions on the text of a number. -/
structure Libc where
  atoi : Bytes → UInt32
  atof : Bytes → UInt32

/-- The bound buffer, whose text ends with a terminator at or behind `size`. -/
structure Source where
  text : Bytes
  size : Nat
  size_le : size ≤ text.length + 1

def strstr (s pat : Bytes) : Option Bytes :=
  if pat.isPrefixOf s then some s
  else match s with
    | [] => none
    | _ :: s => strstr s pat

def isBlank (c : UInt8) : Bool := c = 32 ∨ c = 9 ∨ c = 10 ∨ c = 13

/-- The value at `val_start`.
mirrors config_store.c:230-268 -/
def factoryValue (libc : Libc) (val : Bytes) : Value :=
  match val with
  | 34 :: rest =>
    if rest.contains 34 then .string (rest.takeWhile (· ≠ 34)) else .string []
  | _ =>
    if val.head? = some 116 ∨ val.head? = some 102 then .bool ((ascii "true").isPrefixOf val)
    else if val.contains 46 then .float (libc.atof val)
    else .int (libc.atoi val)

/-- What one pass of the loop does at `cursor`: the entry that is added, and where the loop goes on;
`none` where it ends. The terminator is the end of the list.
mirrors config_store.c:205-270 -/
def factoryStep (libc : Libc) (cursor : Bytes) : Option (Option Entry × Bytes) :=
  match cursor.dropWhile (· ≠ 34) with
  | [] => none
  | _ :: keyStart =>
    match keyStart.dropWhile (· ≠ 34) with
    | [] => none
    | _ :: behind =>
      let key := keyStart.takeWhile (· ≠ 34)
      if 32 ≤ key.length then some (none, behind)
      else match behind.dropWhile (· ≠ 58) with
        | [] => some (none, behind)
        | _ :: val =>
          let val := val.dropWhile isBlank
          some (some (mkEntry key (factoryValue libc val)), val.drop 1)

/-- The loop; each pass takes at least one byte, so that `fuel` is the length of the text. -/
def factoryLoop (libc : Libc) (stop : Nat) : Nat → Bytes → List Entry → List Entry
  | 0, _, entries => entries
  | fuel + 1, cursor, entries =>
    if cursor.length ≤ stop then entries
    else match factoryStep libc cursor with
      | none => entries
      | some (none, cursor) => factoryLoop libc stop fuel cursor entries
      | some (some e, cursor) => factoryLoop libc stop fuel cursor (addEntry entries e)

/-- mirrors config_store.c:195-272 -/
def loadFactoryDefaults (libc : Libc) (src : Source) : Option (List Entry) :=
  if src.size = 0 then none
  else some (factoryLoop libc (src.text.length - src.size) (src.text.length + 1) src.text [])

/-- mirrors config_store.c:135-157 -/
def findJsonValue (src : Source) (key : Bytes) : Option Bytes :=
  if 63 < key.length + 3 then none
  else (strstr src.text (34 :: (key ++ [34, 58]))).map (·.drop (key.length + 3))

/-! ## The blob -/

def Value.typeByte : Value → UInt8
  | .int _ => 0
  | .float _ => 1
  | .bool _ => 2
  | .string _ => 3
  | .unknown t _ => t

/-- mirrors config_store.c:301-328 -/
def Value.bytes : Value → Bytes
  | .int i => toLe32 i
  | .float f => toLe32 f
  | .bool b => [if b then 1 else 0]
  | .string s => toLe16 s.length.toUInt16 ++ s
  | .unknown _ _ => []

def Entry.bytes (e : Entry) : Bytes :=
  e.key.length.toUInt8 :: (e.key ++ e.value.typeByte :: e.value.bytes)

/-- The loop of `blob_serialize`, with `pos` bytes written.
mirrors config_store.c:290-329 -/
def serializeEntries (bufSize : Nat) : Nat → List Entry → Option Bytes
  | _, [] => some []
  | pos, e :: es =>
    if bufSize < pos + 1 + e.key.length + 1 + 8 then none
    else (serializeEntries bufSize (pos + e.bytes.length) es).map (e.bytes ++ ·)

/-- mirrors config_store.c:282-332 -/
def blobSerialize (bufSize : Nat) (entries : List Entry) : Option Bytes :=
  if bufSize < 2 then none
  else (serializeEntries bufSize 2 entries).map (toLe16 entries.length.toUInt16 ++ ·)

/-- What C takes for a string: the bytes before the first terminator. -/
def cstr (s : Bytes) : Bytes := s.takeWhile (· ≠ 0)

/-- A value of that type at the front of the buffer, and what is behind it; a value that the buffer
is too short for is left zero and ends the loop.
mirrors config_store.c:369-406 -/
def readValue (type : UInt8) (buf : Bytes) : Value × Option Bytes :=
  if h : 4 ≤ type then (.unknown type h, some buf)
  else if type = 0 then
    match buf with
    | a :: b :: c :: d :: rest => (.int (le32 a b c d), some rest)
    | _ => (.int 0, none)
  else if type = 1 then
    match buf with
    | a :: b :: c :: d :: rest => (.float (le32 a b c d), some rest)
    | _ => (.float 0, none)
  else if type = 2 then
    match buf with
    | a :: rest => (.bool (a ≠ 0), some rest)
    | [] => (.bool false, none)
  else
    match buf with
    | a :: b :: rest =>
      if rest.length < (le16 a b).toNat then (.string [], none)
      else (.string (cstr (rest.take (min (le16 a b).toNat 63))),
        some (rest.drop (min (le16 a b).toNat 63)))
    | _ => (.string [], none)

/-- The loop of `blob_deserialize`: the table when it ends, and whether the blob was read through. An
entry that the table has no room for is passed over without its value.
mirrors config_store.c:349-407 -/
def deserializeEntries : Nat → Bytes → List Entry → List Entry × Bool
  | 0, _, entries => (entries, true)
  | _ + 1, [], entries => (entries, false)
  | count + 1, keyLen :: buf, entries =>
    if buf.length < keyLen.toNat ∨ 32 ≤ keyLen.toNat then (entries, false)
    else match buf.drop keyLen.toNat with
      | [] => (entries, false)
      | type :: rest =>
        if maxEntries ≤ entries.length then deserializeEntries count rest entries
        else
          let entries := entries ++ [mkEntry (cstr (buf.take keyLen.toNat)) (readValue type rest).1]
          match (readValue type rest).2 with
          | none => (entries, false)
          | some rest => deserializeEntries count rest entries

/-- mirrors config_store.c:340-409 -/
def blobDeserialize (buf : Bytes) (entries : List Entry) : List Entry × Bool :=
  match buf with
  | a :: b :: rest => deserializeEntries (le16 a b).toNat rest entries
  | _ => (entries, false)

/-- The table's polynomial is 0xEDB88320: an entry is eight steps of its index.
mirrors config_store.c:83-128 -/
def crc32Le (crc : BitVec 32) (buf : Bytes) : BitVec 32 :=
  buf.foldl (fun crc b => (Crc.step 0xEDB88320)^[8] (crc ^^^ b.toBitVec.setWidth 32)) crc

/-! ## Storage -/

/-- What the HAL keeps over a reboot. -/
structure Storage where
  flag : UInt8
  blobA : Option Bytes
  blobB : Option Bytes
  deriving DecidableEq

namespace Storage

def blob (st : Storage) (slot : Bool) : Option Bytes := if slot then st.blobB else st.blobA

def slotFlag (slot : Bool) : UInt8 := if slot then flagB else flagA

def write (st : Storage) (slot : Bool) (b : Bytes) : Storage :=
  if slot then { st with blobB := some b } else { st with blobA := some b }

end Storage

def withCrc (payload : Bytes) : Bytes := toLe32 ⟨crc32Le 0 payload⟩ ++ payload

/-- The store while the device runs. -/
structure Store where
  storage : Storage
  entries : List Entry
  deriving DecidableEq

/-- Load a slot over the factory entries. `depth` bounds the fall back to the other slot, which can
happen once: the other slot's flag is not the one that is set.
mirrors config_store.c:441-471 -/
def loadFromStorage (factory : List Entry) : Nat → Bool → Store → Store × Bool
  | 0, _, s => (s, false)
  | depth + 1, slot, s =>
    match s.storage.blob slot with
    | none => (s, false)
    | some buf =>
      if buf.length < 6 then (s, false)
      else if ⟨crc32Le 0 (buf.drop 4)⟩ ≠ le32At buf 0 then
        let other := loadFromStorage factory depth (!slot) s
        if s.storage.flag ≠ Storage.slotFlag (!slot) ∧ other.2 = true then
          ({ other.1 with storage :=
            { other.1.storage with flag := Storage.slotFlag (!slot) } }, true)
        else ({ s with entries := factory }, true)
      else
        let table := blobDeserialize (buf.drop 4) s.entries
        ({ s with entries := table.1 }, table.2)

/-- mirrors config_store.c:509-524 -/
def configStoreInit (libc : Libc) (src : Source) (st : Storage) : Option Store :=
  match loadFactoryDefaults libc src with
  | none => none
  | some factory =>
    let s : Store := ⟨st, factory⟩
    if st.flag = flagA then some (loadFromStorage factory 2 false s).1
    else if st.flag = flagB then some (loadFromStorage factory 2 true s).1
    else some s

/-- mirrors config_store.c:693-727 (`config_store_commit`), 478-503 (`save_to_storage`) -/
def configStoreCommit (s : Store) : Option Store :=
  match blobSerialize blobMax s.entries with
  | none => none
  | some _ =>
    let target := decide (s.storage.flag = flagA)
    match blobSerialize (blobMax - 4) s.entries with
    | none => none
    | some payload =>
      some { s with storage :=
        { s.storage.write target (withCrc payload) with flag := Storage.slotFlag target } }

/-! ## Reading and setting -/

section
variable (libc : Libc) (src : Source) (entries : List Entry)

section
variable (key : Bytes) (default : UInt32) (s : Bytes)

/-- The entry of a key, if it is of the asked type. -/
def entryValue : Option Value := (findEntry entries key).map (·.value)

/-- mirrors config_store.c:532-545 -/
def configStoreGetBool (default : Bool) : Bool :=
  match entryValue entries key with
  | some (.bool b) => b
  | _ =>
    match findJsonValue src key with
    | none => default
    | some v =>
      if (ascii "true").isPrefixOf v ∨ (ascii " true").isPrefixOf v then true
      else if (ascii "false").isPrefixOf v ∨ (ascii " false").isPrefixOf v then false
      else default

/-- mirrors config_store.c:554-562 -/
def configStoreGetInt : UInt32 :=
  match entryValue entries key with
  | some (.int i) => i
  | _ => ((findJsonValue src key).map libc.atoi).getD default

/-- mirrors config_store.c:570-578 -/
def configStoreGetFloat : UInt32 :=
  match entryValue entries key with
  | some (.float f) => f
  | _ => ((findJsonValue src key).map libc.atof).getD default

/-- The text behind the first quote, up to the end of the source.
mirrors config_store.c:586-600 -/
def configStoreGetString (default : Bytes) : Bytes :=
  match entryValue entries key with
  | some (.string s) => s
  | _ =>
    match findJsonValue src key with
    | none => default
    | some v =>
      match v.dropWhile (· ≠ 34) with
      | [] => default
      | _ :: rest => rest

def replaceFirst (key : Bytes) (v : Value) : List Entry → List Entry
  | [] => []
  | e :: es =>
    if e.key = key then ⟨e.key, v.stored, e.key_short, v.stored_short⟩ :: es
    else e :: replaceFirst key v es

/-- What the setters share. -/
def configStoreSet (v : Value) : Option (List Entry) :=
  if (findEntry entries key).isSome then some (replaceFirst key v entries)
  else if maxEntries ≤ entries.length then none
  else some (entries ++ [mkEntry key v])

/-- mirrors config_store.c:608-619 -/
def configStoreSetBool (b : Bool) : Option (List Entry) := configStoreSet entries key (.bool b)

/-- mirrors config_store.c:627-638 -/
def configStoreSetInt (i : UInt32) : Option (List Entry) := configStoreSet entries key (.int i)

/-- mirrors config_store.c:646-657 -/
def configStoreSetFloat (bits : UInt32) : Option (List Entry) :=
  configStoreSet entries key (.float bits)

/-- mirrors config_store.c:665-677 -/
def configStoreSetString : Option (List Entry) := configStoreSet entries key (.string s)

end

end

/-- A call of `config_store_set_bool`, `_int`, `_float` or `_string`. -/
inductive SetCall where
  | setBool (key : Bytes) (b : Bool)
  | setInt (key : Bytes) (i : UInt32)
  | setFloat (key : Bytes) (bits : UInt32)
  | setString (key : Bytes) (s : Bytes)
  deriving DecidableEq

namespace SetCall

def key : SetCall → Bytes
  | setBool k _ | setInt k _ | setFloat k _ | setString k _ => k

def value : SetCall → Value
  | setBool _ b => .bool b
  | setInt _ i => .int i
  | setFloat _ f => .float f
  | setString _ s => .string s

def apply (entries : List Entry) : SetCall → Option (List Entry)
  | setBool k b => configStoreSetBool entries k b
  | setInt k i => configStoreSetInt entries k i
  | setFloat k f => configStoreSetFloat entries k f
  | setString k s => configStoreSetString entries k s

theorem apply_eq (entries : List Entry) (c : SetCall) :
    c.apply entries = configStoreSet entries c.key c.value := by cases c <;> rfl

end SetCall

/-- The calls one after the other; `none` where the table is full. -/
def setAll : List Entry → List SetCall → Option (List Entry)
  | entries, [] => some entries
  | entries, c :: cs => (c.apply entries).bind (setAll · cs)

end MiniTree.Config
