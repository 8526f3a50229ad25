import MiniTree.Ota.Boot
import MiniTree.Ota.Crc

/-!
# The state journal (`bootutil/src/ota_state_flash.c`)

Records of a state word and its check word are appended to a sector of the flash; the sector is
erased when it is full, or when a half-written record lies behind the log. The sector is modelled
by its record slots: writing a word clears bits, an erase sets them, and one that the power loss
cuts short does part of it.

**Results.** `store_atomic`: as long as no power loss falls into a store that has to erase the
sector, the load behind every store gives the old record or the new one. `store_loses`: an
erase that is followed by a power loss loses the record.
-/

namespace MiniTree.Ota.Journal

open MiniTree.Core List BitVec Nat Option

/-- A state word and its check word. -/
abbrev Record := Word × Word

def blank : Record := (0xFFFFFFFF, 0xFFFFFFFF)

/-- mirrors ota_state.c:34-40 (`ota_state_record_build`) -/
def recordBuild (stateWord : Word) : Record :=
  (Word.withMagic stateWord, Crc.otaStateCrc32 (Word.withMagic stateWord))

/-- mirrors ota_state.c:42-49 (`ota_state_record_valid`) -/
def recordValid (r : Record) : Bool :=
  if r.1 &&& Word.maskMagic ≠ (0xA5#32 <<< 8) &&& Word.maskMagic then false
  else decide (r.2 = Crc.otaStateCrc32 r.1)

/-- `state_scan_t` -/
structure Scan where
  used : Nat
  latest : Option Record
  deriving DecidableEq, Repr

/-- The loop over the slots from `off` on; `none` when a read fails, which it does behind the
end of the sector.
mirrors ota_state_flash.c:26-57 -/
def stateScan (size : Nat) (slots : List Record) (scan : Scan) : Option Scan :=
  if size < (scan.used + 8) % 2 ^ 32 then some scan
  else match slots with
    | [] => none
    | r :: rest =>
      if r = blank then some scan
      else if recordValid r = false then some scan
      else stateScan size rest ⟨(scan.used + 8) % 2 ^ 32, some r⟩

/-- mirrors ota_state_flash.c:59-86 -/
def flashStateLoad (size : Nat) (slots : List Record) : Option Record :=
  (stateScan size slots ⟨0, none⟩).bind Scan.latest

/-- Where the power fails. A mask holds the bits that are not changed any more. -/
inductive Power where
  | kept
  | erase (mask : Nat → Record)
  | first (mask : Word)
  | second (mask : Word)

section
variable (size : Nat) (slots : List Record) (off : Nat)

/-- A write of the state word into the slot at `off`. -/
def writeState (w : Word) : List Record :=
  slots.modify (off / 8) fun r => (r.1 &&& w, r.2)

def writeCheck (w : Word) : List Record :=
  slots.modify (off / 8) fun r => (r.1, r.2 &&& w)

def erase : List Record := slots.map fun _ => blank

/-- An erase that leaves the bits of `mask` as they were. -/
def eraseCut (mask : Nat → Record) : List Record :=
  slots.mapIdx fun i r => (r.1 ||| ~~~(mask i).1, r.2 ||| ~~~(mask i).2)

/-- The two writes.
mirrors ota_state_flash.c:136-142 -/
def writeRecord (r : Record) : Power → List Record
  | .erase _ => slots
  | .first mask => writeState slots off (r.1 ||| mask)
  | .second mask => writeCheck (writeState slots off r.1) off (r.2 ||| mask)
  | .kept => writeCheck (writeState slots off r.1) off r.2

/-- The erase of the sector and the writes behind it. -/
def eraseWrite (r : Record) : Power → List Record
  | .erase mask => eraseCut slots mask
  | power => writeRecord (erase slots) 0 r power

/-- mirrors ota_state_flash.c:89-143 -/
def flashStateStore (r : Record) (power : Power) : List Record :=
  if size < 8 then slots
  else match stateScan size slots ⟨0, none⟩ with
    | none => slots
    | some scan =>
      if size < (scan.used + 8) % 2 ^ 32 then eraseWrite slots r power
      else match slots[scan.used / 8]? with
        | none => slots
        | some probe =>
          if probe ≠ blank then eraseWrite slots r power
          else writeRecord slots scan.used r power

end

/-- A store of a state word, and where the power fails in it. -/
structure Store where
  word : Word
  power : Power

def next (size : Nat) (slots : List Record) (l : Store) : Option (List Record) :=
  some (flashStateStore size slots (recordBuild l.word) l.power)

/-- Runs from an erased sector of `size` bytes. -/
def system (size : Nat) : LTS (List Record) Store :=
  LTS.ofFn (fun slots => slots = List.replicate (size / 8) blank) (next size)

/-! ## Records -/

theorem recordValid_blank : recordValid blank = false := by decide +kernel

theorem recordValid_iff {r : Record} : recordValid r = true ↔
    r.1 &&& Word.maskMagic = (0xA5#32 <<< 8) &&& Word.maskMagic ∧ r.2 = Crc.otaStateCrc32 r.1 := by
  unfold recordValid
  split
  · rename_i h
    exact ⟨fun h' => Bool.noConfusion h', fun h' => absurd h'.1 h⟩
  · rename_i h
    rw [decide_eq_true_iff]
    exact ⟨fun h' => ⟨Decidable.not_not.mp h, h'⟩, fun h' => h'.2⟩

theorem recordValid_build (w : Word) : recordValid (recordBuild w) = true := by
  refine recordValid_iff.mpr ⟨?_, rfl⟩
  apply eq_of_getLsbD_eq
  intro i _
  change (((w &&& ~~~Word.maskMagic) ||| _) &&& Word.maskMagic).getLsbD i = _
  rw [getLsbD_and, getLsbD_or, getLsbD_and, getLsbD_not]
  cases h : Word.maskMagic.getLsbD i <;> simp [h]

theorem recordValid_half (w : Word) : recordValid (w, 0xFFFFFFFF) = false := by
  refine eq_false_of_ne_true fun h => ?_
  obtain ⟨hm, hc⟩ := recordValid_iff.mp h
  have hb := congrArg (fun x : BitVec 8 => x.getLsbD 1) (Crc.otaStateCrc32_blank hc.symm)
  have hm := congrArg (fun x : Word => x.getLsbD 9) hm
  change (BitVec.setWidth 8 (w >>> 8)).getLsbD 1 = true at hb
  change (w &&& Word.maskMagic).getLsbD 9 = false at hm
  rw [getLsbD_setWidth, getLsbD_ushiftRight] at hb
  rw [getLsbD_and] at hm
  have hw : w.getLsbD 9 = true := hb
  rw [hw] at hm
  exact absurd hm (by decide)

/-! ## The log -/

/-- The valid records at the start of the sector. -/
def log (slots : List Record) : List Record := slots.takeWhile recordValid

/-- The sector is full, or what lies behind the log is not blank. -/
def NeedsErase (slots : List Record) : Prop := (slots.dropWhile recordValid).head? ≠ some blank
  deriving Decidable

section

variable {size : Nat} {slots : List Record} {front rest : List Record}

theorem log_append_drop (slots : List Record) : log slots ++ slots.dropWhile recordValid = slots :=
  takeWhile_append_dropWhile

theorem log_valid : ∀ r ∈ log slots, recordValid r = true := fun _ h =>
  all_eq_true.mp all_takeWhile _ h

theorem stateScan_append (hword : size < 2 ^ 32) (recs rest : List Record) (k : Nat)
    (latest : Option Record) (hv : ∀ r ∈ recs, recordValid r = true)
    (hk : 8 * (k + recs.length) ≤ size) : stateScan size (recs ++ rest) ⟨8 * k, latest⟩ =
      stateScan size rest ⟨8 * (k + recs.length), recs.getLast?.or latest⟩ := by
  induction recs generalizing k latest with
  | nil => rfl
  | cons r recs ih =>
    rw [length_cons] at hk
    have hr := hv r mem_cons_self
    have hne : r ≠ blank := by
      rintro rfl
      rw [recordValid_blank] at hr
      cases hr
    have hmod : (8 * k + 8) % 2 ^ 32 = 8 * (k + 1) := by
      rw [mod_eq_of_lt (by omega)]
      omega
    rw [List.cons_append, stateScan, if_neg (by rw [hmod]; omega)]
    dsimp only
    rw [if_neg hne, if_neg (by rw [hr]; exact Bool.noConfusion), hmod,
      ih (k + 1) _ (fun x hx => hv x (mem_cons_of_mem _ hx)) (by omega), length_cons,
      List.getLast?_cons]
    congr 2
    · omega
    · cases recs.getLast? <;> rfl

theorem stateScan_invalid {r : Record} (hv : recordValid r = false) (rest : List Record)
    (scan : Scan) : stateScan size (r :: rest) scan = some scan := by
  unfold stateScan
  dsimp only
  rw [if_pos hv, ite_self, ite_self]

theorem head_dropWhile {r : Record} (h : slots.dropWhile recordValid = r :: rest) :
    recordValid r = false := by
  have hr := head?_dropWhile_not recordValid slots
  rw [h] at hr
  exact hr

theorem length_log (hk : slots.length = size / 8) :
    (log slots).length + (slots.dropWhile recordValid).length = size / 8 := by
  rw [← length_append, log_append_drop, hk]

theorem stateScan_behind (hword : size < 2 ^ 32) (hk : slots.length = size / 8) :
    stateScan size slots ⟨0, none⟩ = stateScan size (slots.dropWhile recordValid)
      ⟨8 * (log slots).length, (log slots).getLast?⟩ := by
  have hlen := length_log hk
  have h := stateScan_append hword (log slots) (slots.dropWhile recordValid) 0 none log_valid
    (by omega)
  rw [zero_add, or_none, log_append_drop] at h
  exact h

theorem stateScan_eq (hsize : size < 2 ^ 32 - 8) (hk : slots.length = size / 8) :
    stateScan size slots ⟨0, none⟩ = some ⟨8 * (log slots).length, (log slots).getLast?⟩ := by
  have hlen := length_log hk
  rw [stateScan_behind (by omega) hk]
  cases hd : slots.dropWhile recordValid with
  | nil =>
    rw [hd, length_nil] at hlen
    refine if_pos ?_
    dsimp only
    rw [mod_eq_of_lt (by omega)]
    omega
  | cons r rest => exact stateScan_invalid (head_dropWhile hd) rest _

theorem flashStateLoad_eq (hsize : size < 2 ^ 32 - 8) (hk : slots.length = size / 8) :
    flashStateLoad size slots = (log slots).getLast? := by
  unfold flashStateLoad
  rw [stateScan_eq hsize hk]
  rfl

theorem getElem?_log (slots : List Record) :
    slots[8 * (log slots).length / 8]? = (slots.dropWhile recordValid).head? := by
  rw [Nat.mul_div_cancel_left _ (by decide), List.head?_eq_getElem?]
  conv => lhs; arg 1; rw [← log_append_drop slots]
  rw [List.getElem?_append_right (le_refl _), Nat.sub_self]

theorem flashStateStore_eq (h8 : 8 ≤ size) (hsize : size < 2 ^ 32 - 8)
    (hk : slots.length = size / 8) (r : Record) (power : Power) : flashStateStore size slots r power =
      if NeedsErase slots then eraseWrite slots r power
      else writeRecord slots (8 * (log slots).length) r power := by
  have hlen := length_log hk
  unfold flashStateStore
  rw [if_neg (by omega), stateScan_eq hsize hk]
  dsimp only
  rw [mod_eq_of_lt (by omega)]
  split
  · have hnil : slots.dropWhile recordValid = [] := eq_nil_of_length_eq_zero (by omega)
    have hne : NeedsErase slots := by
      unfold NeedsErase
      rw [hnil]
      exact nofun
    rw [if_pos hne]
  cases hd : slots.dropWhile recordValid with
  | nil =>
    rw [hd, length_nil] at hlen
    omega
  | cons probe rest =>
    have hne : NeedsErase slots ↔ probe ≠ blank := by
      unfold NeedsErase
      rw [hd]
      exact not_congr some_inj
    rw [getElem?_log, hd]
    exact (if_congr hne rfl rfl).symm

/-! ## One store -/

/-- What a store leaves in a blank slot. -/
def written (r : Record) : Power → Record
  | .erase _ => blank
  | .first mask => (r.1 ||| mask, 0xFFFFFFFF)
  | .second mask => (r.1, r.2 ||| mask)
  | .kept => r

theorem modify_slot (f : Record → Record) (front rest : List Record) (r : Record) :
    (front ++ r :: rest).modify (8 * front.length / 8) f = front ++ f r :: rest := by
  rw [Nat.mul_div_cancel_left _ (by decide), modify_eq_take_drop, take_left, drop_left]
  rfl

theorem writeRecord_eq (front rest : List Record) (r : Record) (power : Power) :
    writeRecord (front ++ blank :: rest) (8 * front.length) r power =
      front ++ written r power :: rest := by
  have hall : ∀ w : Word, 0xFFFFFFFF &&& w = w := fun w => allOnes_and
  have hstate : ∀ w, writeState (front ++ blank :: rest) (8 * front.length) w =
      front ++ (w, 0xFFFFFFFF) :: rest := by
    intro w
    unfold writeState
    rw [modify_slot, blank, hall]
  have hcheck : ∀ v w, writeCheck (front ++ (v, 0xFFFFFFFF) :: rest) (8 * front.length) w =
      front ++ (v, w) :: rest := by
    intro v w
    unfold writeCheck
    rw [modify_slot, hall]
  cases power with
  | erase mask => rfl
  | first mask => exact hstate _
  | second mask | kept => exact (congrArg (writeCheck · _ _) (hstate _)).trans (hcheck _ _)

/-- What a store leaves is the new record, or it is not valid. -/
theorem written_valid {w : Word} {power : Power}
    (h : recordValid (written (recordBuild w) power) = true) :
    written (recordBuild w) power = recordBuild w := by
  cases power with
  | erase mask =>
    change recordValid blank = true at h
    rw [recordValid_blank] at h
    cases h
  | first mask =>
    change recordValid (_, 0xFFFFFFFF) = true at h
    rw [recordValid_half] at h
    cases h
  | second mask => exact Prod.ext rfl (recordValid_iff.mp h).2
  | kept => rfl

/-- Records, then at most one slot that is neither valid nor blank, then blank slots. -/
structure Tidy (size : Nat) (slots : List Record) : Prop where
  length : slots.length = size / 8
  rest : ∀ r ∈ (slots.dropWhile recordValid).tail, r = blank

theorem log_blank {rest : List Record} (h : ∀ r ∈ rest, r = blank) :
    log rest = [] ∧ rest.dropWhile recordValid = rest := by
  cases rest with
  | nil => exact ⟨rfl, rfl⟩
  | cons r rest =>
    have hr : ¬ recordValid r = true := by
      rw [h r mem_cons_self, recordValid_blank]
      exact Bool.noConfusion
    exact ⟨takeWhile_cons_of_neg hr, dropWhile_cons_of_neg hr⟩

/-- A slot behind the log and blank slots behind it. -/
theorem log_append (hf : ∀ r ∈ front, recordValid r = true)
    (hr : ∀ r ∈ rest, r = blank) (r : Record) :
    log (front ++ r :: rest) = (if recordValid r = true then front ++ [r] else front) ∧
      ∀ x ∈ ((front ++ r :: rest).dropWhile recordValid).tail, x = blank := by
  obtain ⟨hlog, hdrop⟩ := log_blank hr
  unfold log at hlog ⊢
  rw [takeWhile_append_of_pos hf, dropWhile_append_of_pos hf]
  by_cases hv : recordValid r = true
  · rw [if_pos hv, takeWhile_cons_of_pos hv, dropWhile_cons_of_pos hv, hlog, hdrop]
    exact ⟨rfl, fun x hx => hr x (mem_of_mem_tail hx)⟩
  · rw [if_neg hv, takeWhile_cons_of_neg hv, dropWhile_cons_of_neg hv, append_nil]
    exact ⟨rfl, hr⟩

/-- The load behind a store gives the old record or the new one. -/
def Atomic (size : Nat) (slots : List Record) (l : Store) : Prop :=
  flashStateLoad size (flashStateStore size slots (recordBuild l.word) l.power) =
      flashStateLoad size slots ∨
    flashStateLoad size (flashStateStore size slots (recordBuild l.word) l.power) =
      some (recordBuild l.word)

def Power.isKept : Power → Bool
  | .kept => true
  | _ => false

/-- No power loss falls into a store that erases. -/
def Unerased (slots : List Record) (l : Store) : Prop := NeedsErase slots → l.power.isKept = true
  deriving Decidable

/-- The sector behind a store, and what is loaded from it. -/
theorem load_append (hsize : size < 2 ^ 32 - 8) (hf : ∀ r ∈ front, recordValid r = true)
    (hr : ∀ r ∈ rest, r = blank) (hlen : front.length + (rest.length + 1) = size / 8) (r : Record) :
    Tidy size (front ++ r :: rest) ∧ flashStateLoad size (front ++ r :: rest) =
      if recordValid r = true then some r else front.getLast? := by
  have hlen' : (front ++ r :: rest).length = size / 8 := by
    rw [length_append]
    exact hlen
  obtain ⟨hlog, htail⟩ := log_append hf hr r
  refine ⟨⟨hlen', htail⟩, ?_⟩
  rw [flashStateLoad_eq hsize hlen', hlog]
  split
  · exact List.getLast?_concat
  · rfl

theorem writeRecord_erase (h8 : 8 ≤ size) (hk : slots.length = size / 8) :
    ∃ rest : List Record, (∀ r ∈ rest, r = blank) ∧ 0 + (rest.length + 1) = size / 8 ∧
      ∀ r power, writeRecord (erase slots) 0 r power = [] ++ written r power :: rest := by
  cases slots with
  | nil =>
    rw [length_nil] at hk
    omega
  | cons s rest =>
    refine ⟨erase rest, fun x hx => ?_, ?_, writeRecord_eq [] (erase rest)⟩
    · obtain ⟨_, _, he⟩ := mem_map.mp hx
      exact he.symm
    · rw [erase, length_map, zero_add]
      exact hk

/-- A store that appends goes to the blank slot behind the log. -/
theorem Tidy.writeRecord (ht : Tidy size slots)
    (hb : (slots.dropWhile recordValid).head? = some blank) : ∃ rest : List Record,
      (∀ r ∈ rest, r = blank) ∧ (log slots).length + (rest.length + 1) = size / 8 ∧
        ∀ r power, writeRecord slots (8 * (log slots).length) r power =
          log slots ++ written r power :: rest := by
  obtain ⟨rest, hd⟩ := List.head?_eq_some_iff.mp hb
  have hslots : log slots ++ blank :: rest = slots := by rw [← hd, log_append_drop]
  refine ⟨rest, fun r hr => ht.rest r ?_, ?_, fun r power => ?_⟩
  · rw [hd]
    exact hr
  · rw [← length_log ht.length, hd]
    rfl
  · have hw := writeRecord_eq (log slots) rest r power
    rw [hslots] at hw
    exact hw

/-- The erase of a sector and the writes at its start, and what is loaded behind them. -/
theorem load_erased (h8 : 8 ≤ size) (hsize : size < 2 ^ 32 - 8) (hk : slots.length = size / 8)
    (r : Record) (power : Power) : Tidy size (writeRecord (erase slots) 0 r power) ∧
      flashStateLoad size (writeRecord (erase slots) 0 r power) =
        if recordValid (written r power) = true then some (written r power) else none := by
  obtain ⟨rest, hr, hlen, hw⟩ := writeRecord_erase h8 hk
  rw [hw]
  exact load_append hsize (fun _ h => absurd h not_mem_nil) hr hlen _

theorem store_step (h8 : 8 ≤ size) (hsize : size < 2 ^ 32 - 8) (ht : Tidy size slots) {l : Store}
    (hl : Unerased slots l) :
    Tidy size (flashStateStore size slots (recordBuild l.word) l.power) ∧ Atomic size slots l := by
  obtain ⟨word, power⟩ := l
  unfold Atomic
  dsimp only
  rw [flashStateStore_eq h8 hsize ht.length]
  by_cases hn : NeedsErase slots
  · rw [if_pos hn]
    -- the erase and both writes are done
    cases power with
    | kept =>
      obtain ⟨htidy, hload⟩ := load_erased h8 hsize ht.length (recordBuild word) .kept
      exact ⟨htidy, .inr (hload.trans (if_pos (recordValid_build word)))⟩
    | erase mask | first mask | second mask => cases hl hn
  obtain ⟨rest, hr, hlen, hw⟩ := ht.writeRecord (Decidable.not_not.mp hn)
  obtain ⟨htidy, hload⟩ := load_append hsize log_valid hr hlen (written (recordBuild word) power)
  rw [if_neg hn, hw, flashStateLoad_eq hsize ht.length]
  refine ⟨htidy, ?_⟩
  rw [hload]
  by_cases hv : recordValid (written (recordBuild word) power) = true
  · rw [if_pos hv, written_valid hv]
    exact .inr rfl
  · rw [if_neg hv]
    exact .inl rfl

/-- A power loss right behind the erase. -/
theorem store_loses (h8 : 8 ≤ size) (hsize : size < 2 ^ 32 - 8) (hk : slots.length = size / 8)
    (hn : NeedsErase slots) (r : Record) :
    flashStateLoad size (flashStateStore size slots r (.first 0xFFFFFFFF)) = none := by
  have hv : recordValid (written r (.first 0xFFFFFFFF)) = false := recordValid_half _
  rw [flashStateStore_eq h8 hsize hk, if_pos hn]
  refine (load_erased h8 hsize hk r (.first 0xFFFFFFFF)).2.trans (if_neg ?_)
  rw [hv]
  exact Bool.noConfusion

end

theorem store_atomic {size : Nat} (h8 : 8 ≤ size) (hsize : size < 2 ^ 32 - 8)
    {slots : List Record} (h : ((system size).restrict Unerased).Reachable slots) (w : Word) :
    (∀ power, Unerased slots ⟨w, power⟩ → Atomic size slots ⟨w, power⟩) ∧
      (NeedsErase slots → flashStateLoad size slots ≠ none →
        ∃ power, ¬ Atomic size slots ⟨w, power⟩) := by
  have hinv : ((system size).restrict Unerased).IsInvariant (Tidy size) := by
    refine ⟨fun slots h0 => ?_, fun slots l slots' ht hn => ?_⟩
    · cases h0
      have hr : ∀ r ∈ List.replicate (size / 8) blank, r = blank := fun _ => eq_of_mem_replicate
      refine ⟨length_replicate, ?_⟩
      rw [(log_blank hr).2]
      exact fun x hx => hr x (mem_of_mem_tail hx)
    · obtain ⟨hl, hn⟩ := hn
      cases hn
      exact (store_step h8 hsize ht hl).1
  have ht := hinv.holds h
  refine ⟨fun power hl => (store_step h8 hsize ht hl).2, fun hn hload => ⟨.first 0xFFFFFFFF, ?_⟩⟩
  have hlost := store_loses h8 hsize ht.length hn (recordBuild w)
  unfold Atomic
  dsimp only
  rw [hlost]
  rintro (hold | hnew)
  · exact hload hold.symm
  · cases hnew

/-- A record is appended, the power fails in the next store, and the store behind it erases. -/
theorem store_atomic_cut : ∃ slots, ((system 16).restrict Unerased).Reachable slots ∧
    (NeedsErase slots ∧ flashStateLoad 16 slots = some (recordBuild 0x40)) ∧
    Atomic 16 slots ⟨0x80, .kept⟩ := by
  obtain ⟨slots, hs, hp⟩ := LTS.Reachable.of_execOk
    (fun slots => slots = List.replicate (16 / 8) blank) (next 16) Unerased
    (List.replicate (16 / 8) blank) [⟨0x40, .kept⟩, ⟨0x80, .second 0x5⟩]
    (fun slots => NeedsErase slots ∧ flashStateLoad 16 slots = some (recordBuild 0x40)) rfl
    (by decide +kernel)
  exact ⟨slots, hs, hp, (store_atomic (by decide) (by decide) hs 0x80).1 .kept fun _ => rfl⟩

/-- A sector of one record: the erase of the second store loses the first one. -/
theorem store_not_atomic : ¬ ∀ size, 8 ≤ size → ∀ slots, (system size).Reachable slots →
    ∀ l, Atomic size slots l := by
  intro h
  obtain ⟨slots, hs, hold, hlost⟩ := LTS.Reachable.of_exec
    (fun slots => slots = List.replicate (8 / 8) blank) (next 8) (List.replicate (8 / 8) blank)
    [⟨0x40, .kept⟩]
    (fun slots => flashStateLoad 8 slots = some (recordBuild 0x40) ∧
      flashStateLoad 8 (flashStateStore 8 slots (recordBuild 0x80) (.first 0xFFFFFFFF)) = none) rfl
    (by decide +kernel)
  have ha := h 8 (by decide) slots hs ⟨0x80, .first 0xFFFFFFFF⟩
  unfold Atomic at ha
  dsimp only at ha
  rw [hlost, hold] at ha
  rcases ha with ha | ha
  · cases ha
  · cases ha

end MiniTree.Ota.Journal
