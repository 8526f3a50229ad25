import MiniTree.Board.ConfigStore
import Mathlib.Data.List.TakeWhile

/-!
# What is read after a reboot

A session starts on any storage, sets keys, commits and reboots. The blob holds the whole table,
factory entries included, and a reboot appends it to the factory entries, where the first entry of a
key is the one that is found.

**Results.** `deserialize_serialize`: reading a blob appends its entries as far as there is room.
`persistent_iff`: after the reboot every key that was set reads as it was set, and every other key
as it did when the session started, exactly when each key either reads so from the factory entries
alone, or is not a factory key and comes early enough. `factory_key_lost` is the set value of a
factory key.
-/

namespace MiniTree.Config

open MiniTree.Core List Option Nat

/-! ## The blob -/

/-- No terminator stands in a string: what was one in C. -/
def Value.IsText : Value → Prop
  | .string s => 0 ∉ s
  | _ => True

instance (v : Value) : Decidable v.IsText := by
  unfold Value.IsText
  split <;> infer_instance

def Entry.IsText (e : Entry) : Prop := 0 ∉ e.key ∧ e.value.IsText
  deriving Decidable

theorem cstr_eq {s : Bytes} (h : 0 ∉ s) : cstr s = s :=
  takeWhile_eq_self_iff.mpr fun _ hb => decide_eq_true fun h0 => h (h0 ▸ hb)

theorem readValue_bytes {v : Value} (hv : v.Short) (htext : v.IsText) (rest : Bytes) :
    readValue v.typeByte (v.bytes ++ rest) = (v, some rest) := by
  cases v with
  | int i =>
    change (Value.int (le32 _ _ _ _), some rest) = _
    rw [le32_toLe32]
  | float f =>
    change (Value.float (le32 _ _ _ _), some rest) = _
    rw [le32_toLe32]
  | bool b => cases b <;> rfl
  | string s =>
    have hlen : s.length ≤ 63 := hv
    have hs : s.length.toUInt16.toNat = s.length := by
      rw [toUInt16, UInt16.toNat_ofNat']
      omega
    change (if (s ++ rest).length < (le16 _ _).toNat then _ else
      (Value.string (cstr ((s ++ rest).take (min (le16 _ _).toNat 63))),
        some ((s ++ rest).drop (min (le16 _ _).toNat 63)))) = _
    rw [le16_toLe16, hs, if_neg (by simp), min_eq_left hlen, take_left, drop_left,
      cstr_eq htext]
  | unknown t ht =>
    unfold readValue Value.typeByte
    rw [dif_pos ht]
    rfl

theorem mkEntry_self (e : Entry) : mkEntry e.key e.value = e := by
  obtain ⟨key, value, hk, hv⟩ := e
  have hkey : key.take 31 = key := take_of_length_le hk
  have hval : value.stored = value := by
    cases value with
    | string s => exact congrArg _ (take_of_length_le hv)
    | _ => rfl
  simp only [mkEntry, hkey, hval]

variable {entries es fs : List Entry} {c : SetCall} {bufSize : Nat} {key : Bytes}

/-- Once the table is full the rest of a blob changes nothing. -/
theorem deserializeEntries_full (h : maxEntries ≤ entries.length)
    (count : Nat) (buf : Bytes) : (deserializeEntries count buf entries).1 = entries := by
  induction count generalizing buf with
  | zero => rfl
  | succ count ih =>
    cases buf with
    | nil => rfl
    | cons keyLen buf =>
      rw [deserializeEntries]
      split
      · rfl
      split
      · rfl
      · exact ih _

theorem deserializeEntries_entry (h : entries.length < maxEntries)
    {e : Entry} (ht : e.IsText) (count : Nat) (rest : Bytes) :
    deserializeEntries (count + 1) (e.bytes ++ rest) entries =
      deserializeEntries count rest (entries ++ [e]) := by
  have hk := e.key_short
  have hlen : e.key.length.toUInt8.toNat = e.key.length := by
    rw [toUInt8, UInt8.toNat_ofNat']
    omega
  have hbuf : e.bytes ++ rest = e.key.length.toUInt8 ::
      (e.key ++ (e.value.typeByte :: (e.value.bytes ++ rest))) := by
    simp only [Entry.bytes, cons_append, append_assoc]
  rw [hbuf, deserializeEntries, hlen, if_neg (by simp; omega), drop_left]
  dsimp only
  rw [if_neg (by omega), take_left, cstr_eq ht.1, readValue_bytes e.value_short ht.2, mkEntry_self]

def entriesBytes (es : List Entry) : Bytes := es.flatMap Entry.bytes

theorem deserializeEntries_append (es entries : List Entry) (rest : Bytes)
    (ht : ∀ e ∈ es, e.IsText) (h : entries.length ≤ maxEntries) :
    (deserializeEntries es.length (entriesBytes es ++ rest) entries).1 =
      (entries ++ es).take maxEntries := by
  induction es generalizing entries with
  | nil => rw [append_nil, take_of_length_le h]; rfl
  | cons e es ih =>
    by_cases hfull : maxEntries ≤ entries.length
    · rw [deserializeEntries_full hfull, take_append_of_le_length (by omega), take_of_length_le h]
    have hbytes : entriesBytes (e :: es) ++ rest = e.bytes ++ (entriesBytes es ++ rest) := by
      simp only [entriesBytes, flatMap_cons, append_assoc]
    obtain ⟨he, hes⟩ := forall_mem_cons.mp ht
    rw [length_cons, hbytes, deserializeEntries_entry (by omega) he,
      ih _ hes (by simp; omega), append_assoc]
    rfl

theorem length_bytes (e : Entry) : e.bytes.length ≤ 98 := by
  have hk := e.key_short
  have hv : e.value.bytes.length ≤ 65 := by
    have hs := e.value_short
    cases hval : e.value with
    | string s =>
      rw [hval] at hs
      have hs' : s.length ≤ 63 := hs
      simp only [Value.bytes, length_append, toLe16_length]
      omega
    | _ => simp [Value.bytes]
  simp only [Entry.bytes, length_cons, length_append]
  omega

/-- A table of at most eight entries fits the buffer. -/
theorem serializeEntries_eq (es : List Entry) (pos : Nat)
    (h : pos + 98 * es.length ≤ bufSize) : serializeEntries bufSize pos es = some (entriesBytes es) := by
  induction es generalizing pos with
  | nil => rfl
  | cons e es ih =>
    have hk := e.key_short
    have hb := length_bytes e
    rw [length_cons] at h
    rw [serializeEntries, if_neg (by omega), ih _ (by omega)]
    rfl

theorem blobSerialize_eq (hes : es.length ≤ maxEntries) (hb : 1024 ≤ bufSize) :
    blobSerialize bufSize es = some (toLe16 es.length.toUInt16 ++ entriesBytes es) := by
  unfold maxEntries at hes
  unfold blobSerialize
  rw [if_neg (by omega), serializeEntries_eq es 2 (by omega)]
  rfl

/-- A blob that is read appends its entries as far as there is room. -/
theorem deserialize_serialize (hes : es.length ≤ maxEntries) (ht : ∀ e ∈ es, e.IsText)
    (h : entries.length ≤ maxEntries) :
    (blobDeserialize (toLe16 es.length.toUInt16 ++ entriesBytes es) entries).1 =
      (entries ++ es).take maxEntries := by
  have hlen : es.length.toUInt16.toNat = es.length := by
    unfold maxEntries at hes
    rw [toUInt16, UInt16.toNat_ofNat']
    omega
  have hrun := deserializeEntries_append es entries [] ht h
  rw [append_nil] at hrun
  change (deserializeEntries (le16 _ _).toNat (entriesBytes es) entries).1 = _
  rw [le16_toLe16, hlen]
  exact hrun

/-! ## The factory entries -/

theorem length_addEntry (h : entries.length ≤ maxEntries) (e : Entry) :
    (addEntry entries e).length ≤ maxEntries := by
  unfold addEntry
  split
  · exact h
  · rw [length_append, length_singleton]
    omega

theorem length_factoryLoop (libc : Libc) (stop fuel : Nat) (cursor : Bytes)
    (h : entries.length ≤ maxEntries) :
    (factoryLoop libc stop fuel cursor entries).length ≤ maxEntries := by
  induction fuel generalizing cursor entries with
  | zero => exact h
  | succ fuel ih =>
    rw [factoryLoop]
    split
    · exact h
    split
    · exact h
    · exact ih _ h
    · exact ih _ (length_addEntry h _)

theorem length_factory {libc : Libc} {src : Source}
    (h : loadFactoryDefaults libc src = some es) : es.length ≤ maxEntries := by
  unfold loadFactoryDefaults at h
  split at h
  · exact absurd h (by simp)
  · rw [← some_inj.mp h]
    exact length_factoryLoop _ _ _ _ (zero_le _)

/-! ## Loading a storage -/

/-- Entries of a blob come behind those that are there. -/
theorem deserializeEntries_prefix (count : Nat) (buf : Bytes) (entries : List Entry)
    (h : entries.length ≤ maxEntries) : entries <+: (deserializeEntries count buf entries).1 ∧
      (deserializeEntries count buf entries).1.length ≤ maxEntries := by
  induction count generalizing buf entries with
  | zero => exact ⟨prefix_rfl, h⟩
  | succ count ih =>
    cases buf with
    | nil => exact ⟨prefix_rfl, h⟩
    | cons keyLen buf =>
      rw [deserializeEntries]
      split
      · exact ⟨prefix_rfl, h⟩
      split
      · exact ⟨prefix_rfl, h⟩
      split
      · exact ih _ _ h
      dsimp only
      have hlen : ∀ e : Entry, (entries ++ [e]).length ≤ maxEntries := fun e => by
        rw [length_append, length_singleton]
        omega
      split
      · exact ⟨prefix_append .., hlen _⟩
      · obtain ⟨hp, hl⟩ := ih _ _ (hlen _)
        exact ⟨(prefix_append ..).trans hp, hl⟩

/-- A table that starts with the factory entries. -/
def OverFactory (factory entries : List Entry) : Prop :=
  factory <+: entries ∧ entries.length ≤ maxEntries

theorem OverFactory.deserialize (h : OverFactory fs es) (buf : Bytes) :
    OverFactory fs (blobDeserialize buf es).1 := by
  unfold blobDeserialize
  split
  · obtain ⟨hp, hl⟩ := deserializeEntries_prefix _ _ es h.2
    exact ⟨h.1.trans hp, hl⟩
  · exact h

theorem OverFactory.loadFromStorage (hf : fs.length ≤ maxEntries) (depth : Nat) (slot : Bool)
    (s : Store) (h : OverFactory fs s.entries) :
    OverFactory fs (loadFromStorage fs depth slot s).1.entries := by
  induction depth generalizing slot with
  | zero => exact h
  | succ depth ih =>
    rw [Config.loadFromStorage]
    split
    · exact h
    split
    · exact h
    split
    · dsimp only
      split
      · exact ih _
      · exact ⟨prefix_rfl, hf⟩
    · exact h.deserialize _

/-! ## A session -/

/-- A start, calls that all succeed, a commit that succeeds and a reboot. The strings of the table are
C strings. -/
structure Session (libc : Libc) (src : Source) where
  storage : Storage
  calls : List SetCall
  started : Store
  table : List Entry
  committed : Store
  rebooted : Store
  short : ∀ c ∈ calls, c.key.length < 32
  text : ∀ e ∈ table, e.IsText
  start_eq : configStoreInit libc src storage = some started
  set_eq : setAll started.entries calls = some table
  commit_eq : configStoreCommit { started with entries := table } = some committed
  reboot_eq : configStoreInit libc src committed.storage = some rebooted

/-- The getter of the call's type reads what the call stored. -/
def Reads (libc : Libc) (src : Source) (entries : List Entry) : SetCall → Prop
  | .setBool key b => ∀ d, configStoreGetBool src entries key d = b
  | .setInt key i => ∀ d, configStoreGetInt libc src entries key d = i
  | .setFloat key f => ∀ d, configStoreGetFloat libc src entries key d = f
  | .setString key s => ∀ d, configStoreGetString src entries key d = s.take 63

structure ReadsSame (libc : Libc) (src : Source) (es fs : List Entry) (key : Bytes) : Prop where
  bool : ∀ d, configStoreGetBool src es key d = configStoreGetBool src fs key d
  int : ∀ d, configStoreGetInt libc src es key d = configStoreGetInt libc src fs key d
  float : ∀ d, configStoreGetFloat libc src es key d = configStoreGetFloat libc src fs key d
  string : ∀ d, configStoreGetString src es key d = configStoreGetString src fs key d

namespace Session

variable {libc : Libc} {src : Source}

def lastCall (x : Session libc src) (key : Bytes) : Option SetCall :=
  x.calls.reverse.find? (·.key = key)

/-- The table that a start on an empty storage gives. -/
def factory (_ : Session libc src) : List Entry := (loadFactoryDefaults libc src).getD []

/-- After the reboot each key that was set reads as it was set last, and each other key as it did when
the session started. -/
def Persistent (x : Session libc src) : Prop :=
  ∀ key, match x.lastCall key with
    | some c => Reads libc src x.rebooted.entries c
    | none => ReadsSame libc src x.rebooted.entries x.started.entries key

end Session

/-- What a call adds to the new keys `ks`. -/
def addKey (old : List Bytes) (ks : List Bytes) (c : SetCall) : List Bytes :=
  if c.key ∈ old ∨ c.key ∈ ks then ks else ks ++ [c.key]

/-- The keys of calls that the entries do not have, in the order of their first call. -/
def newKeys (entries : List Entry) (calls : List SetCall) : List Bytes :=
  calls.foldl (addKey (entries.map (·.key))) []

/-! ## The table before the commit -/

theorem findEntry_replaceFirst {v : Value} (es : List Entry) (k : Bytes)
    (h : (findEntry es key).isSome) : (findEntry (replaceFirst key v es) k).map (·.value) =
      if key = k then some v.stored else (findEntry es k).map (·.value) := by
  induction es with
  | nil => exact absurd h (by simp [findEntry])
  | cons e es ih =>
    unfold findEntry at ih h ⊢
    rw [replaceFirst]
    rw [List.find?_cons] at h
    split
    · rename_i hek
      subst hek
      rw [List.find?_cons, List.find?_cons]
      by_cases hk : e.key = k <;> simp [hk]
    rename_i hek
    rw [decide_eq_false hek] at h
    rw [List.find?_cons, List.find?_cons]
    by_cases hk : e.key = k
    · have hne : key ≠ k := fun h' => hek (hk.trans h'.symm)
      simp [hk, hne]
    · simp only [decide_eq_false hk]
      exact ih h

theorem keys_replaceFirst (key : Bytes) (v : Value) (es : List Entry) :
    (replaceFirst key v es).map (·.key) = es.map (·.key) := by
  induction es with
  | nil => rfl
  | cons e es ih =>
    rw [replaceFirst]
    split
    · rfl
    · rw [List.map_cons, List.map_cons, ih]

theorem findEntry_isSome : (findEntry es key).isSome ↔ key ∈ es.map (·.key) := by
  unfold findEntry
  rw [List.find?_isSome, List.mem_map]
  simp only [decide_eq_true_eq]

theorem findEntry_append (es fs : List Entry) (key : Bytes) :
    findEntry (es ++ fs) key = (findEntry es key).or (findEntry fs key) := List.find?_append

theorem length_replaceFirst (key : Bytes) (v : Value) (es : List Entry) :
    (replaceFirst key v es).length = es.length := by
  have h := congrArg List.length (keys_replaceFirst key v es)
  rwa [length_map, length_map] at h

theorem apply_spec (h : c.apply es = some fs)
    (hk : c.key.length < 32) : (es.length ≤ maxEntries → fs.length ≤ maxEntries) ∧
    (fs.map (·.key) = if c.key ∈ es.map (·.key) then es.map (·.key) else es.map (·.key) ++ [c.key]) ∧
    ∀ k, entryValue fs k = if c.key = k then some c.value.stored else entryValue es k := by
  have hkey : c.key.take 31 = c.key := take_of_length_le (by omega)
  rw [SetCall.apply_eq] at h
  unfold configStoreSet at h
  split at h
  · rename_i hsome
    rw [← some_inj.mp h, keys_replaceFirst, if_pos (findEntry_isSome.mp hsome), length_replaceFirst]
    exact ⟨id, rfl, fun k => findEntry_replaceFirst es k hsome⟩
  rename_i hnone
  split at h
  · exact absurd h (by simp)
  rw [← some_inj.mp h, if_neg fun hm => hnone (findEntry_isSome.mpr hm)]
  refine ⟨fun hlen => ?_, ?_, fun k => ?_⟩
  · rw [length_append, length_singleton]
    omega
  · rw [map_append]
    exact congrArg (fun x => es.map (·.key) ++ [x]) hkey
  unfold entryValue
  rw [findEntry_append]
  by_cases heq : c.key = k
  · rw [if_pos heq]
    rw [heq, not_isSome_iff_eq_none] at hnone
    rw [hnone, none_or]
    have hkk : (mkEntry c.key c.value).key = k := hkey.trans heq
    simp [findEntry, hkk]
    rfl
  · have hkk : (mkEntry c.key c.value).key ≠ k := fun h' => heq (hkey.symm.trans h')
    rw [if_neg heq]
    simp [findEntry, hkk]

theorem setAll_spec {old ks : List Bytes} {calls : List SetCall}
    (h : setAll es calls = some fs) (hk : ∀ c ∈ calls, c.key.length < 32)
    (hlen : es.length ≤ maxEntries) (hkeys : es.map (·.key) = old ++ ks) :
    fs.length ≤ maxEntries ∧ fs.map (·.key) = old ++ calls.foldl (addKey old) ks ∧
    ∀ k, entryValue fs k = match calls.reverse.find? (·.key = k) with
      | some c => some c.value.stored
      | none => entryValue es k := by
  induction calls generalizing es ks with
  | nil =>
    rw [← some_inj.mp h]
    exact ⟨hlen, hkeys, fun k => rfl⟩
  | cons c calls ih =>
    obtain ⟨gs, hg, hfs⟩ := bind_eq_some_iff.mp h
    obtain ⟨hglen, hgkeys, hgval⟩ := apply_spec hg (hk c mem_cons_self)
    have hgk : gs.map (·.key) = old ++ addKey old ks c := by
      rw [hgkeys, hkeys]
      unfold addKey
      by_cases hm : c.key ∈ old ∨ c.key ∈ ks
      · rw [if_pos hm, if_pos (mem_append.mpr hm)]
      · rw [if_neg hm, if_neg fun h => hm (mem_append.mp h), append_assoc]
    obtain ⟨hflen, hfkeys, hfval⟩ :=
      ih hfs (fun d hd => hk d (mem_cons_of_mem _ hd)) (hglen hlen) hgk
    refine ⟨hflen, hfkeys, fun k => ?_⟩
    rw [hfval k, reverse_cons, List.find?_append]
    cases calls.reverse.find? (·.key = k) with
    | some d => rfl
    | none =>
      rw [hgval k]
      by_cases hck : c.key = k <;> simp [hck]

/-- The part of a table that is kept has an entry if it comes early enough. -/
theorem findEntry_take (es : List Entry) (m : Nat) (k : Bytes) :
    findEntry (es.take m) k = if (es.map (·.key)).idxOf k < m then findEntry es k else none := by
  induction es generalizing m with
  | nil => simp [findEntry]
  | cons e es ih =>
    cases m with
    | zero => simp [findEntry]
    | succ m =>
      unfold findEntry at ih ⊢
      rw [take_succ_cons, List.find?_cons, List.find?_cons, map_cons, idxOf_cons]
      by_cases hk : e.key = k
      · simp [hk]
      simp only [decide_eq_false hk, ih]
      have hb : (e.key == k) = false := by simpa using hk
      rw [hb]
      simp only [cond_false, Nat.add_lt_add_iff_right]

/-! ## After the reboot -/

theorem drop_withCrc (payload : Bytes) : (withCrc payload).drop 4 = payload := rfl

theorem le32At_withCrc (payload : Bytes) : le32At (withCrc payload) 0 = ⟨crc32Le 0 payload⟩ :=
  le32At_append [] payload _

/-- A slot that was written with its checksum is read. -/
theorem loadFromStorage_withCrc {factory : List Entry} {depth : Nat} {slot : Bool} {s : Store}
    {payload : Bytes} (hb : s.storage.blob slot = some (withCrc payload)) (hp : 2 ≤ payload.length) :
    (loadFromStorage factory (depth + 1) slot s).1.entries =
      (blobDeserialize payload s.entries).1 := by
  have hlen : ¬ (withCrc payload).length < 6 := by
    rw [withCrc, length_append, toLe32_length]
    omega
  rw [loadFromStorage, hb]
  dsimp only
  rw [if_neg hlen, drop_withCrc, le32At_withCrc, if_neg (not_not_intro rfl)]

theorem blob_write (st : Storage) (slot : Bool) (b : Bytes) (flag : UInt8) :
    Storage.blob { st.write slot b with flag := flag } slot = some b := by cases slot <;> rfl

namespace Session

variable {libc : Libc} {src : Source}

/-- The session starts with the factory entries, and what was loaded stands behind them. -/
theorem started_factory (x : Session libc src) : loadFactoryDefaults libc src = some x.factory ∧
    OverFactory x.factory x.started.entries := by
  have hstart := x.start_eq
  unfold configStoreInit at hstart
  unfold factory
  cases hf : loadFactoryDefaults libc src with
  | none =>
    rw [hf] at hstart
    exact absurd hstart (by simp)
  | some factory =>
    have hlen := length_factory hf
    have hself : OverFactory factory factory := ⟨prefix_rfl, hlen⟩
    rw [hf] at hstart
    refine ⟨rfl, ?_⟩
    dsimp only [getD_some] at hstart ⊢
    split at hstart
    · rw [← some_inj.mp hstart]
      exact .loadFromStorage hlen _ _ _ hself
    split at hstart
    · rw [← some_inj.mp hstart]
      exact .loadFromStorage hlen _ _ _ hself
    · rw [← some_inj.mp hstart]
      exact hself

/-- What is committed is loaded again, behind the factory entries. -/
theorem reboot_entries (x : Session libc src) (ht : x.table.length ≤ maxEntries) :
    x.rebooted.entries = (x.factory ++ x.table).take maxEntries := by
  obtain ⟨hf, -⟩ := x.started_factory
  have hreboot := x.reboot_eq
  have hcommit := x.commit_eq
  unfold configStoreInit at hreboot
  rw [hf] at hreboot
  dsimp only at hreboot
  unfold configStoreCommit at hcommit
  rw [blobSerialize_eq ht (by decide), blobSerialize_eq ht (by decide)] at hcommit
  dsimp only at hcommit
  have hpay : 2 ≤ (toLe16 x.table.length.toUInt16 ++ entriesBytes x.table).length := by
    rw [length_append, toLe16_length]
    omega
  rw [← some_inj.mp hcommit] at hreboot
  rw [← deserialize_serialize ht x.text (length_factory hf)]
  -- the slot that was written is the one its flag names
  generalize decide (x.started.storage.flag = flagA) = target at hreboot
  cases target with
  | false =>
    have hA : Storage.slotFlag false = flagA := rfl
    dsimp only at hreboot
    rw [if_pos hA] at hreboot
    rw [← some_inj.mp hreboot]
    exact loadFromStorage_withCrc (blob_write _ _ _ _) hpay
  | true =>
    have hA : Storage.slotFlag true ≠ flagA := by decide
    have hB : Storage.slotFlag true = flagB := rfl
    dsimp only at hreboot
    rw [if_neg hA, if_pos hB] at hreboot
    rw [← some_inj.mp hreboot]
    exact loadFromStorage_withCrc (blob_write _ _ _ _) hpay

theorem table_spec (x : Session libc src) : x.table.length ≤ maxEntries ∧
    x.table.map (·.key) = x.started.entries.map (·.key) ++ newKeys x.started.entries x.calls ∧
    ∀ k, entryValue x.table k =
      match x.lastCall k with
      | some c => some c.value.stored
      | none => entryValue x.started.entries k :=
  setAll_spec x.set_eq x.short x.started_factory.2.2 (append_nil _).symm

/-- A key that is no factory key comes so early in the table that it is still loaded behind the
factory entries. -/
def HasRoom (x : Session libc src) (key : Bytes) : Prop := key ∉ x.factory.map (·.key) ∧
    x.factory.length + (x.started.entries.map (·.key) ++
      newKeys x.started.entries x.calls).idxOf key < maxEntries

/-- What is found after the reboot: an entry of the table that has room, or the factory's. -/
theorem rebooted_value (x : Session libc src) (k : Bytes) :
    (x.HasRoom k → entryValue x.rebooted.entries k = entryValue x.table k) ∧
    (¬ x.HasRoom k → entryValue x.rebooted.entries k = entryValue x.factory k) := by
  obtain ⟨htlen, htkeys, htval⟩ := x.table_spec
  have hflen := length_factory x.started_factory.1
  have htake : (x.factory ++ x.table).take maxEntries =
      x.factory ++ x.table.take (maxEntries - x.factory.length) := by
    rw [take_append, take_of_length_le hflen]
  unfold entryValue HasRoom
  rw [x.reboot_entries htlen, htake, findEntry_append, findEntry_take, htkeys]
  by_cases hk : k ∈ x.factory.map (·.key)
  · obtain ⟨e, he⟩ := isSome_iff_exists.mp (findEntry_isSome.mpr hk)
    rw [he, some_or]
    exact ⟨fun h => absurd hk h.1, fun _ => rfl⟩
  have hnone : findEntry x.factory k = none :=
    not_isSome_iff_eq_none.mp fun h => hk (findEntry_isSome.mp h)
  rw [hnone, none_or]
  constructor
  · intro h
    rw [if_pos (by omega)]
  · intro h
    rw [if_neg]
    intro hlt
    exact h ⟨hk, by omega⟩

/-- The getters see the table through one entry. -/
theorem reads_congr {es fs : List Entry} (h : entryValue es c.key = entryValue fs c.key) :
    Reads libc src es c ↔ Reads libc src fs c := by
  cases c <;>
  · dsimp only [SetCall.key] at h
    simp only [Reads, configStoreGetBool, configStoreGetInt, configStoreGetFloat,
      configStoreGetString, h]

theorem reads_of_value {es : List Entry}
    (h : entryValue es c.key = some c.value.stored) : Reads libc src es c := by
  cases c <;>
  · dsimp only [SetCall.key, SetCall.value, Value.stored] at h
    simp only [Reads, configStoreGetBool, configStoreGetInt, configStoreGetFloat,
      configStoreGetString, h, implies_true]

theorem readsSame_of_value {es fs : List Entry} {k : Bytes} (h : entryValue es k = entryValue fs k) :
    ReadsSame libc src es fs k := by
  constructor <;> intro d <;>
    simp only [configStoreGetBool, configStoreGetInt, configStoreGetFloat, configStoreGetString, h]

theorem readsSame_congr {es fs gs : List Entry} {k : Bytes} (h : entryValue es k = entryValue fs k) :
    ReadsSame libc src es gs k ↔ ReadsSame libc src fs gs k := by
  have hes : ReadsSame libc src es fs k := readsSame_of_value h
  constructor <;> rintro ⟨h1, h2, h3, h4⟩
  · exact ⟨fun d => (hes.bool d).symm.trans (h1 d), fun d => (hes.int d).symm.trans (h2 d),
      fun d => (hes.float d).symm.trans (h3 d), fun d => (hes.string d).symm.trans (h4 d)⟩
  · exact ⟨fun d => (hes.bool d).trans (h1 d), fun d => (hes.int d).trans (h2 d),
      fun d => (hes.float d).trans (h3 d), fun d => (hes.string d).trans (h4 d)⟩

theorem key_of_lastCall {x : Session libc src} {k : Bytes}
    (h : x.lastCall k = some c) : c.key = k := by
  have hk := List.find?_some h
  exact of_decide_eq_true hk

theorem persistent_iff (x : Session libc src) : x.Persistent ↔ ∀ key, x.HasRoom key ∨
      match x.lastCall key with
      | some c => Reads libc src x.factory c
      | none => ReadsSame libc src x.factory x.started.entries key := by
  obtain ⟨-, -, htval⟩ := x.table_spec
  refine forall_congr' fun key => ?_
  have hval := htval key
  obtain ⟨hroom, hlost⟩ := x.rebooted_value key
  by_cases hr : x.HasRoom key
  · -- the entry of the table is the one that is found
    refine iff_of_true ?_ (.inl hr)
    have hfound := (hroom hr).trans hval
    cases hc : x.lastCall key with
    | none =>
      rw [hc] at hfound
      exact readsSame_of_value hfound
    | some c =>
      rw [hc] at hfound
      obtain rfl := key_of_lastCall hc
      exact reads_of_value hfound
  · rw [or_iff_right hr]
    have hfound := hlost hr
    cases hc : x.lastCall key with
    | none => exact readsSame_congr hfound
    | some c =>
      obtain rfl := key_of_lastCall hc
      exact reads_congr hfound

end Session

def digits (s : Bytes) : UInt32 :=
  (s.takeWhile fun c => 48 ≤ c ∧ c ≤ 57).foldl (fun n c => n * 10 + (c - 48).toUInt32) 0

def plainLibc : Libc := ⟨digits, digits⟩

/-- `{"a":1,"b":2}` -/
def sourceAB : Source := ⟨ascii "\x7b\"a\":1,\"b\":2\x7d", 13, by decide⟩

def sessionOf (calls : List SetCall) : Store × List Entry × Store × Store :=
  let blank : Storage := ⟨0xFF, none, none⟩
  let started := (configStoreInit plainLibc sourceAB blank).getD ⟨blank, []⟩
  let table := (setAll started.entries calls).getD []
  let committed := (configStoreCommit { started with entries := table }).getD started
  (started, table, committed, (configStoreInit plainLibc sourceAB committed.storage).getD committed)

def setFactoryKey : Session plainLibc sourceAB where
  storage := ⟨0xFF, none, none⟩
  calls := [.setInt (ascii "a") 7]
  started := (sessionOf [.setInt (ascii "a") 7]).1
  table := (sessionOf [.setInt (ascii "a") 7]).2.1
  committed := (sessionOf [.setInt (ascii "a") 7]).2.2.1
  rebooted := (sessionOf [.setInt (ascii "a") 7]).2.2.2
  short := by decide
  text := by decide +kernel
  start_eq := by decide +kernel
  set_eq := by decide +kernel
  commit_eq := by decide +kernel
  reboot_eq := by decide +kernel

theorem factory_key_lost : ¬ ∀ (libc : Libc) (src : Source) (x : Session libc src), x.Persistent := by
  intro h
  have hread : Reads plainLibc sourceAB setFactoryKey.rebooted.entries (.setInt (ascii "a") 7) :=
    h plainLibc sourceAB setFactoryKey (ascii "a")
  exact absurd (hread 0) (by decide +kernel)

end MiniTree.Config
