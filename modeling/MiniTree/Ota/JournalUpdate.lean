import MiniTree.Ota.JournalRegister

/-!
# Updates of the state word (`bootutil/src/ota_state.c`)

`ota_state_update` reads the record, merges the bits of a mask into it and stores it. Opening the
area and every read of the flash can fail here, in the load and again in the store.

**Results.** `Medium.framed_iff`: an update leaves the durable bits outside its mask as they are
exactly when the load meets no error, or the store meets one, or none of them was set. A load that
fails is taken for a sector without a record.
-/

namespace MiniTree.Ota.Journal

open MiniTree.Core Option List Prod BitVec
open Word (durable maskCurrent)

/-! ## Operations that fail -/

/-- What `flash_area_open` gives: an area, success without an area, or an error. -/
inductive Opened where
  | area
  | null
  | error
  deriving DecidableEq, Repr

/-- How the area opens and which reads of the scan fail, by their offset: in the load and in the
store; and the read of the slot the record goes to. -/
structure Faults where
  loadOpen : Opened
  load : Nat → Bool
  storeOpen : Opened
  scan : Nat → Bool
  probe : Bool

def Faults.never : Faults := ⟨.area, fun _ => false, .area, fun _ => false, false⟩

/-- The scan with reads that fail.
mirrors ota_state_flash.c:26-57 (`state_scan`) -/
def stateScanIo (fails : Nat → Bool) (size : Nat) (slots : List Record) (scan : Scan) : Option Scan :=
  if size < (scan.used + 8) % 2 ^ 32 then some scan
  else if fails scan.used = true then none
  else match slots with
    | [] => none
    | r :: rest =>
      if r = blank then some scan
      else if recordValid r = false then some scan
      else stateScanIo fails size rest ⟨(scan.used + 8) % 2 ^ 32, some r⟩

/-- What a load returns when it returns no record. -/
inductive Err where
  | io
  | arg
  | otaState
  deriving DecidableEq, Repr

/-- mirrors ota_state_flash.c:59-87 (`flash_state_load`) -/
def flashStateLoadIo (opened : Opened) (fails : Nat → Bool) (size : Nat) (slots : List Record) :
    Except Err Record :=
  match opened with
  | .error => .error .io
  | .null => .error .arg
  | .area =>
    match stateScanIo fails size slots ⟨0, none⟩ with
    | none => .error .io
    | some scan =>
      match scan.latest with
      | none => .error .otaState
      | some r => .ok r

/-- mirrors ota_state.c:84-110 (`ota_state_load`) -/
def otaStateLoadIo (opened : Opened) (fails : Nat → Bool) (size : Nat) (slots : List Record) :
    Except Err Word :=
  match flashStateLoadIo opened fails size slots with
  | .error e => .error e
  | .ok r => if recordValid r = false then .error .otaState else .ok r.1

/-- Where a store goes. -/
inductive Landing where
  | erase
  | append (off : Nat)
  deriving DecidableEq, Repr

section
variable (f : Faults) (size : Nat) (slots : List Record)

/-- The part of a store ahead of its writes; `none` where it returns an error.
mirrors ota_state_flash.c:94-134 -/
def landing : Option Landing :=
  if f.storeOpen ≠ .area ∨ size < 8 then none
  else match stateScanIo f.scan size slots ⟨0, none⟩ with
    | none => none
    | some scan =>
      if size < (scan.used + 8) % 2 ^ 32 then some .erase
      else if f.probe = true then none
      else match slots[scan.used / 8]? with
        | none => none
        | some probe => some (if probe ≠ blank then .erase else .append scan.used)

/-- mirrors ota_state_flash.c:89-143 (`flash_state_store`) -/
def flashStateStoreIo (r : Record) : List Record :=
  match landing f size slots with
  | none => slots
  | some .erase => eraseWrite slots r .kept
  | some (.append off) => writeRecord slots off r .kept

/-- mirrors ota_state.c:125-138 -/
def otaStateUpdate (mask value : Word) : List Record :=
  let cur := match otaStateLoadIo f.loadOpen f.load size slots with
    | .error _ => 0
    | .ok w => w
  flashStateStoreIo f size slots (recordBuild (cur.merge mask value &&& durable))

/-- The durable bits on the medium: those of the last record of the log. -/
def persisted : Word := ((log slots).getLast?.map fst).getD 0 &&& durable

/-- The update changes no durable bit outside its mask. -/
def Framed (mask value : Word) : Prop :=
  persisted (otaStateUpdate f size slots mask value) &&& ~~~mask = persisted slots &&& ~~~mask

end

instance (f : Faults) (size : Nat) (slots : List Record) (mask value : Word) :
    Decidable (Framed f size slots mask value) := inferInstanceAs (Decidable (_ = _))

/-- A sector as stores leave it. -/
structure Medium where
  size : Nat
  word : size < 2 ^ 32
  slots : List Record
  tidy : Tidy size slots

/-! ## Scans -/

section

variable {size : Nat} {slots : List Record} {f : Faults}

theorem stateScanIo_never (scan : Scan) :
    stateScanIo (fun _ => false) size slots scan = stateScan size slots scan := by
  induction slots generalizing scan with
  | nil =>
    unfold stateScanIo stateScan
    rw [if_neg Bool.false_ne_true]
  | cons r rest ih =>
    unfold stateScanIo stateScan
    rw [if_neg Bool.false_ne_true]
    dsimp only
    rw [ih]

/-- A scan whose reads succeed is the scan. -/
theorem stateScanIo_some {fails : Nat → Bool} {scan found : Scan}
    (h : stateScanIo fails size slots scan = some found) : stateScan size slots scan = some found := by
  induction slots generalizing scan with
  | nil =>
    unfold stateScanIo at h
    unfold stateScan
    split at h
    · rename_i hend
      rw [if_pos hend, h]
    · split at h <;> cases h
  | cons r rest ih =>
    unfold stateScanIo at h
    unfold stateScan
    split at h
    · rename_i hend
      rw [if_pos hend, h]
    rename_i hend
    rw [if_neg hend]
    split at h
    · cases h
    dsimp only at h ⊢
    split at h
    · rename_i hb
      rw [if_pos hb, h]
    rename_i hb
    rw [if_neg hb]
    split at h
    · rename_i hv
      rw [if_pos hv, h]
    · rename_i hv
      rw [if_neg hv]
      exact ih h

/-- A scan that succeeds ends behind the log. -/
theorem stateScan_log (hword : size < 2 ^ 32) (hk : slots.length = size / 8) {found : Scan}
    (h : stateScan size slots ⟨0, none⟩ = some found) :
    found = ⟨8 * (log slots).length, (log slots).getLast?⟩ := by
  rw [stateScan_behind hword hk] at h
  cases hd : slots.dropWhile recordValid with
  | nil =>
    rw [hd] at h
    exact (ite_some_none_eq_some.mp h).2.symm
  | cons r rest =>
    rw [hd, stateScan_invalid (head_dropWhile hd)] at h
    exact (some_inj.mp h).symm

/-! ## The store -/

/-- A store that meets no read error erases the sector or goes to the blank slot behind the log. -/
theorem landing_spec (hword : size < 2 ^ 32) (hk : slots.length = size / 8) {l : Landing}
    (h : landing f size slots = some l) : 8 ≤ size ∧ (l = .erase ∨
      l = .append (8 * (log slots).length) ∧ (slots.dropWhile recordValid).head? = some blank) := by
  obtain ⟨h8, h⟩ := ite_none_left_eq_some.mp h
  refine ⟨not_lt.mp fun hlt => h8 (.inr hlt), ?_⟩
  cases hscan : stateScanIo f.scan size slots ⟨0, none⟩ with
  | none =>
    rw [hscan] at h
    cases h
  | some scan =>
    have hat := stateScan_log hword hk (stateScanIo_some hscan)
    rw [hscan] at h
    dsimp only at h
    split at h
    · cases h
      exact .inl rfl
    split at h
    · cases h
    rw [hat] at h
    dsimp only at h
    rw [getElem?_log] at h
    cases hp : (slots.dropWhile recordValid).head? with
    | none =>
      rw [hp] at h
      cases h
    | some probe =>
      rw [hp] at h
      dsimp only at h
      split at h
      · cases h
        exact .inl rfl
      · rename_i hb
        cases h
        exact .inr ⟨rfl, congrArg some (Decidable.not_not.mp hb)⟩

theorem log_concat {front rest : List Record} (hf : ∀ r ∈ front, recordValid r = true)
    (hr : ∀ r ∈ rest, r = blank) (w : Word) :
    (log (front ++ recordBuild w :: rest)).getLast? = some (recordBuild w) := by
  rw [(log_append hf hr _).1, if_pos (recordValid_build w)]
  exact getLast?_concat

/-- The last record of the log behind the writes of a store. -/
theorem log_store (hword : size < 2 ^ 32) (ht : Tidy size slots)
    (hl : landing f size slots ≠ none) (w : Word) :
    (log (flashStateStoreIo f size slots (recordBuild w))).getLast? = some (recordBuild w) := by
  obtain ⟨l, hl⟩ := ne_none_iff_exists'.mp hl
  unfold flashStateStoreIo
  obtain ⟨h8, rfl | ⟨rfl, hblank⟩⟩ := landing_spec hword ht.length hl
  · rw [hl]
    dsimp only
    obtain ⟨rest, hr, -, hw⟩ := writeRecord_erase h8 ht.length
    have he : eraseWrite slots (recordBuild w) .kept = [] ++ recordBuild w :: rest :=
      hw (recordBuild w) .kept
    rw [he]
    exact log_concat (fun _ h => absurd h not_mem_nil) hr w
  · rw [hl]
    dsimp only
    obtain ⟨rest, hr, -, hw⟩ := ht.writeRecord hblank
    rw [hw]
    exact log_concat log_valid hr w

/-- Without read errors the store is that of the journal. -/
theorem flashStateStoreIo_never (r : Record) :
    flashStateStoreIo .never size slots r = flashStateStore size slots r .kept := by
  unfold flashStateStoreIo landing flashStateStore Faults.never
  dsimp only
  rw [stateScanIo_never]
  by_cases h8 : size < 8
  · rw [if_pos (.inr h8), if_pos h8]
  rw [if_neg (by simpa using h8), if_neg h8]
  cases stateScan size slots ⟨0, none⟩ with
  | none => rfl
  | some scan =>
    dsimp only
    by_cases hend : size < (scan.used + 8) % 2 ^ 32
    · rw [if_pos hend, if_pos hend]
    rw [if_neg hend, if_neg hend, if_neg Bool.false_ne_true]
    cases slots[scan.used / 8]? with
    | none => rfl
    | some probe =>
      by_cases hb : probe = blank
      · simp only [hb, ne_eq, not_true, if_false]
      · simp only [hb, ne_eq, not_false_eq_true, if_true]

/-! ## The update -/

theorem load_cur (hword : size < 2 ^ 32) (hk : slots.length = size / 8) (opened : Opened)
    (fails : Nat → Bool) :
    (match otaStateLoadIo opened fails size slots with
      | .error _ => (0 : Word)
      | .ok w => w) =
      if opened ≠ .area ∨ stateScanIo fails size slots ⟨0, none⟩ = none then 0
      else ((log slots).getLast?.map fst).getD 0 := by
  unfold otaStateLoadIo flashStateLoadIo
  cases opened with
  | null | error => rfl
  | area =>
    simp only [ne_eq, not_true_eq_false, false_or]
    cases hscan : stateScanIo fails size slots ⟨0, none⟩ with
    | none => rfl
    | some scan =>
      have hat := stateScan_log hword hk (stateScanIo_some hscan)
      rw [if_neg nofun, hat]
      dsimp only
      cases hlast : (log slots).getLast? with
      | none => rfl
      | some r =>
        have hv := log_valid r (mem_of_getLast? hlast)
        dsimp only
        rw [if_neg (by rw [hv]; exact Bool.noConfusion)]
        rfl

/-- The durable bits of a record outside the mask are those of the word it was merged from. -/
theorem durable_stored (cur mask value : Word) :
    Word.withMagic (cur.merge mask value &&& durable) &&& durable &&& ~~~mask =
      cur &&& durable &&& ~~~mask := by
  have hmagic : ∀ i < 32, durable.getLsbD i = true → Word.maskMagic.getLsbD i = false := by
    decide
  apply eq_of_getLsbD_eq
  intro i hi
  have hm : (Word.withMagic (cur.merge mask value &&& durable)).getLsbD i = _ :=
    Word.getLsbD_merge i
  simp only [getLsbD_and, getLsbD_not, hm, Word.getLsbD_merge]
  cases hd : durable.getLsbD i with
  | false => simp
  | true =>
    rw [hmagic i hi hd]
    cases mask.getLsbD i <;> simp

theorem persisted_store (hword : size < 2 ^ 32) (ht : Tidy size slots)
    (hl : landing f size slots ≠ none) (cur mask value : Word) :
    persisted (flashStateStoreIo f size slots (recordBuild (cur.merge mask value &&& durable)))
      &&& ~~~mask = cur &&& durable &&& ~~~mask := by
  unfold persisted
  rw [log_store hword ht hl, map_some, getD_some]
  exact durable_stored cur mask value

end

namespace Medium

variable (m : Medium) (f : Faults)

/-- The load failed to open the area or to read it, the store met no error, and a durable bit outside
the mask is set. -/
def Overwrites (mask : Word) : Prop :=
  (f.loadOpen ≠ .area ∨ stateScanIo f.load m.size m.slots ⟨0, none⟩ = none) ∧ landing f m.size m.slots ≠ none ∧
    persisted m.slots &&& ~~~mask ≠ 0
  deriving Decidable

theorem framed_iff (mask value : Word) :
    Framed f m.size m.slots mask value ↔ ¬ m.Overwrites f mask := by
  unfold Framed Overwrites otaStateUpdate
  dsimp only
  rw [load_cur m.word m.tidy.length]
  by_cases hl : landing f m.size m.slots = none
  · refine iff_of_true ?_ fun h => h.2.1 hl
    unfold flashStateStoreIo
    rw [hl]
  rw [persisted_store m.word m.tidy hl]
  split
  · rename_i hload
    rw [show (0 : Word) &&& durable &&& ~~~mask = 0 from by simp]
    constructor
    · rintro h ⟨-, -, hne⟩
      exact hne h.symm
    · intro h
      by_contra hne
      exact h ⟨hload, hl, fun h0 => hne h0.symm⟩
  · rename_i hload
    exact iff_of_true rfl fun h => hload h.1

end Medium

/-- The partition bit is stored; the read of the next load fails, and setting the pending bit
clears it. -/
theorem framed_fails_on_error : ¬ ∀ (m : Medium) (f : Faults) (mask value : Word),
    Framed f m.size m.slots mask value := by
  intro h
  have htail : ([recordBuild maskCurrent, blank].dropWhile recordValid).tail = [] := by
    decide +kernel
  have htidy : Tidy 16 [recordBuild maskCurrent, blank] := ⟨rfl, by simp [htail]⟩
  have hf : Framed ⟨.area, fun _ => true, .area, fun _ => false, false⟩ 16 [recordBuild maskCurrent, blank]
      Word.maskPending Word.maskPending := h ⟨16, by decide, _, htidy⟩ _ _ _
  exact absurd hf (by decide +kernel)

end MiniTree.Ota.Journal
