import MiniTree.Core.Flash
import MiniTree.Core.Bits
import MiniTree.Core.LTS
import Mathlib.Logic.Function.Basic

/-!
# The boot state (`bootutil/src/start.c`, `bootutil/src/ota_state.c`)

The dual-partition configuration. The state word is kept in RAM and, as far as its durable
bits go, in a record on the state medium. `mini_boot_state_load` runs at each reset and selects
the partition to boot; downloads and `mini_boot_start_ota` work on the other one.

The medium keeps what a store gave it, or what it had before when the store fails. The program
that boots and the one that runs share one RAM word here, which is zero at a reset; `BootRuns.App`
gives the application its own. Verification of an image is a parameter.

**Results.** `getLsbD_merge`, and with it what each update of the state word does to the
partition, the pending and the trial bit (`mode_fail`, `mode_trial`, `mode_confirm`,
`mode_activate`).
-/

namespace MiniTree.Ota

open MiniTree.Core BitVec Function

abbrev Word := BitVec 32

namespace Word

def maskFail : Word := 0x30
def maskCurrent : Word := 0x40
def maskPending : Word := 0x80
def maskMagic : Word := 0xFF00
def maskTrial : Word := 0x10000

/-- mirrors bootutil/inc/ota_state.h:67-68 (`OTA_STATE_DURABLE_MASK`) -/
def durable : Word := maskFail ||| maskCurrent ||| maskPending ||| maskTrial

/-- The bits that an activation or a rollback sets. -/
def maskAll : Word := maskCurrent ||| maskPending ||| maskTrial ||| maskFail

section
variable (w : Word) (bit : Nat) (code : Word)

def bitGet : Bool := w.getLsbD bit

/-- mirrors bootutil/inc/ota_state.h:92-95 (`ota_state_bit_put`) -/
def bitPut (value : Bool) : Word :=
  if value then w ||| (1#32 <<< bit) else w &&& ~~~(1#32 <<< bit)

def isOpen : Bool := w.bitGet 0
def isRollback : Bool := w.bitGet 2
def current : Bool := w.bitGet 6
def pending : Bool := w.bitGet 7
def trial : Bool := w.bitGet 16

/-- mirrors bootutil/inc/ota_state.h:98-101 (`ota_state_fail_get`) -/
def failGet : Word := (w &&& maskFail) >>> 4

/-- mirrors bootutil/inc/ota_state.h:104-107 (`ota_state_fail_encode`) -/
def failEncode : Word := (code <<< 4) &&& maskFail

/-- mirrors bootutil/inc/ota_state.h:110-113 (`ota_state_fail_put`) -/
def failPut : Word := (w &&& ~~~maskFail) ||| failEncode code

/-- `w` with the bits of `mask` taken from `value`. -/
def merge (w mask value : Word) : Word := (w &&& ~~~mask) ||| (value &&& mask)

/-- mirrors ota_state.c:29-32 (`ota_state_with_magic`) -/
def withMagic : Word := (w &&& ~~~maskMagic) ||| ((0xA5#32 <<< 8) &&& maskMagic)

/-- mirrors ota_state.c:51-72 (`ota_state_resolve_pending`) -/
def resolvePending : Option Word :=
  if w.pending = false then none
  else some ((((w.bitPut 6 (!w.current)).bitPut 7 false).bitPut 16 false).failPut code)

end

end Word

/-- `OTA_FAIL_xxx` of `start.h`. -/
def failRead : Word := 1
def failWrite : Word := 2
def failVerify : Word := 3

/-- What a download asks of the hook and of the flash in one round. -/
inductive Answer where
  /-- the hook reports an error -/
  | fail
  | chunk (data : Bytes)
  /-- the write of the chunk fails when `data` is written -/
  | torn (data : Bytes)
  deriving DecidableEq, Repr

/-- What the steps of a run did, as the properties need it. -/
structure History where
  /-- the partition that the last reset booted -/
  booted : Bool
  /-- a `mini_boot_start_ota` has passed the verification since the last reset -/
  activated : Bool
  /-- how often each partition was booted that holds an activated image and was not confirmed -/
  boots : Bool → Option Nat
  /-- the partition that was confirmed, until the next activation -/
  confirmed : Option Bool
  /-- the factory image, and the images that were running at a confirm -/
  good : List (Nat → UInt8)
  /-- the partitions that downloads erased or wrote, with the booted one -/
  touched : List (Bool × Bool)

structure Boot where
  ram : Word
  downloadedSize : Nat
  record : Option Word
  areas : Bool → Flash
  history : History

/-- `MINI_BOOT_LOAD_MAX`, and `image_verify_stream` on the bytes of an area. -/
structure BootCfg where
  loadMax : Nat
  verify : (Nat → UInt8) → Nat → Bool

namespace Boot

variable (cfg : BootCfg)

/-- A device that came up with a factory image in image 0. -/
def factory (areas : Bool → Flash) : Boot where
  ram := 0
  downloadedSize := 0
  record := none
  areas := areas
  history := ⟨false, false, fun _ => none, none, [(areas false).mem], []⟩

section
variable (b : Boot) (code : Word) (stores : Bool)

/-- `stores` tells whether the medium takes the record.
mirrors start.c:31-35 (`state_update`), ota_state.c:125-138
(`ota_state_update`) -/
def stateUpdate (mask value : Word) (stores : Bool) : Boot :=
  { b with
    ram := b.ram.merge mask value
    record := if stores then
        some (Word.withMagic ((b.record.getD 0).merge mask value &&& Word.durable))
      else b.record }

/-- mirrors start.c:87-90 (`ota_fail_set`) -/
def failSet : Boot := b.stateUpdate Word.maskFail (Word.failEncode code) stores

/-- mirrors start.c:143-161 -/
def stateReload : Boot :=
  match b.record with
  | some w => { b with ram := b.ram.merge Word.durable w }
  | none => { b with ram := b.ram &&& ~~~Word.durable }

/-- mirrors start.c:168-199 (`mini_boot_state_load`) -/
def stateLoad : Boot :=
  let b := b.stateReload
  if b.ram.pending = false then b
  else if b.ram.trial = false then b.stateUpdate Word.maskTrial Word.maskTrial stores
  else match b.ram.resolvePending failVerify with
    | some resolved => b.stateUpdate Word.maskAll (resolved &&& Word.maskAll) stores
    | none => b

/-- A reset: the RAM is zero, the state is loaded, and the current partition boots. -/
def reset : Boot :=
  let b := { b with ram := 0, downloadedSize := 0 }.stateLoad stores
  { b with history := { b.history with
      booted := b.ram.current
      activated := false
      boots := fun p => (b.history.boots p).map fun k => if b.ram.current = p then k + 1 else k } }

/-- mirrors start.c:219-228 (`flash_inactive_area_id`) -/
def inactive : Bool := !b.ram.current

/-- One operation on an area, with the history of it. -/
def touch (area : Bool) (f : Flash) : Boot :=
  { b with
    areas := update b.areas area f
    history := { b.history with
      boots := update b.history.boots area none
      touched := b.history.touched ++ [(area, b.history.booted)] } }

end

/-- The loop over the chunks; the code of what went wrong, if anything did.
mirrors start.c:277-302 -/
def downloadLoop (area : Bool) (totalLen : Nat) : List Answer → Nat → Boot → Boot × Option Word
  | [], received, b => (b, if totalLen ≤ received then none else some failRead)
  | answer :: rest, received, b =>
    if totalLen ≤ received then (b, none)
    else match answer with
      | .fail => (b, some failRead)
      | .torn data => (b.touch area ((b.areas area).program received data), some failWrite)
      | .chunk data =>
        if data = [] ∨ min (totalLen - received) cfg.loadMax < data.length then (b, some failRead)
        else downloadLoop area totalLen rest (received + data.length)
          (b.touch area ((b.areas area).program received data))

section
variable (b : Boot) (opens erases : Bool)

section
variable (totalLen : Nat) (answers : List Answer) (stores : Bool)

/-- The erase and the chunks; `opens` and `erases` tell whether the area opens and is erased.
mirrors start.c:263-302 -/
def fetch : Boot × Option Word :=
  if opens = false then (b, some failWrite)
  else
    let area := b.inactive
    let erased := b.touch area ((b.areas area).erase 0 totalLen)
    if erases = false then (erased, some failWrite)
    else downloadLoop cfg area totalLen answers 0 erased

/-- mirrors start.c:247-306 (`mini_boot_source_download_stream`) -/
def download : Boot :=
  if b.ram.isOpen = false ∨ totalLen = 0 then b
  else match b.fetch cfg opens erases totalLen answers with
    | (b, some code) => b.failSet code stores
    | (b, none) => { b with downloadedSize := totalLen }

def downloadCut : Boot :=
  if b.ram.isOpen = false ∨ totalLen = 0 then b.reset stores
  else (b.fetch cfg opens erases totalLen answers).1.reset stores

/-- The value that an activation of the inactive partition stores. -/
def activation : Word :=
  (if b.inactive then Word.maskCurrent else 0) ||| (if b.ram.isRollback then Word.maskPending else 0)

/-- mirrors start.c:308-365 (`mini_boot_start_ota`) -/
def startOta (opens stores : Bool) : Boot :=
  if b.ram.isOpen = false ∨ b.downloadedSize = 0 then b
  else if opens = false then b.failSet failWrite stores
  else if cfg.verify (b.areas b.inactive).mem b.downloadedSize = false then b.failSet failVerify stores
  else
    let area := b.inactive
    let b := b.stateUpdate Word.maskAll b.activation stores
    { b with history := { b.history with
        activated := true
        boots := if stores then update b.history.boots area (some 0) else b.history.boots
        confirmed := if stores then none else b.history.confirmed } }

/-- mirrors start.c:398-403 (`mini_boot_confirm_ota`) -/
def confirmOta : Boot :=
  let b := b.stateUpdate (Word.maskPending ||| Word.maskTrial) 0 stores
  if stores then
    { b with history := { b.history with
        boots := update b.history.boots b.ram.current none
        confirmed := some b.ram.current
        good := (b.areas b.history.booted).mem :: b.history.good } }
  else b

end

end

inductive Label where
  /-- `ota_open`, `ota_close`, `ota_rollback_open`, `ota_rollback_close` -/
  | setOpen (value : Bool)
  | setRollback (value : Bool)
  | reset (stores : Bool)
  | download (opens erases : Bool) (totalLen : Nat) (answers : List Answer) (stores : Bool)
  | downloadCut (opens erases : Bool) (totalLen : Nat) (answers : List Answer) (stores : Bool)
  | startOta (opens stores : Bool)
  | confirmOta (stores : Bool)
  deriving DecidableEq

def next (b : Boot) : Label → Option Boot
  | .setOpen value => some { b with ram := b.ram.bitPut 0 value }
  | .setRollback value => some { b with ram := b.ram.bitPut 2 value }
  | .reset stores => some (b.reset stores)
  | .download opens erases totalLen answers stores =>
    some (b.download cfg opens erases totalLen answers stores)
  | .downloadCut opens erases totalLen answers stores =>
    some (b.downloadCut cfg opens erases totalLen answers stores)
  | .startOta opens stores => some (b.startOta cfg opens stores)
  | .confirmOta stores => some (b.confirmOta stores)

def system : LTS Boot Label := LTS.ofFn (fun b => ∃ areas, b = factory areas) (next cfg)

end Boot

/-! ## The bits of the state word -/

namespace Word

variable {w mask value : Word}

theorem getLsbD_merge (i : Nat) : (w.merge mask value).getLsbD i =
    if mask.getLsbD i then value.getLsbD i else w.getLsbD i := by
  unfold merge
  rw [getLsbD_or, getLsbD_and, getLsbD_and, getLsbD_not]
  by_cases hi : i < 32
  · cases hm : mask.getLsbD i <;> simp [hi]
  · rw [getLsbD_of_ge w i (by omega), getLsbD_of_ge value i (by omega)]
    simp

/-- The bits that decide what boots. -/
structure Mode where
  current : Bool
  pending : Bool
  trial : Bool
  deriving DecidableEq, Repr

def mode (w : Word) : Mode := ⟨w.current, w.pending, w.trial⟩

theorem mode_merge : (w.merge mask value).mode = ⟨if mask.getLsbD 6 then value.current else w.current,
      if mask.getLsbD 7 then value.pending else w.pending,
      if mask.getLsbD 16 then value.trial else w.trial⟩ := by
  unfold mode current pending trial bitGet
  rw [getLsbD_merge, getLsbD_merge, getLsbD_merge]

theorem mode_fail : (w.merge maskFail value).mode = w.mode := mode_merge

theorem mode_trial : (w.merge maskTrial maskTrial).mode = { w.mode with trial := true } := mode_merge

theorem mode_confirm : (w.merge (maskPending ||| maskTrial) 0).mode = ⟨w.current, false, false⟩ :=
  mode_merge

theorem mode_all : (w.merge maskAll value).mode = value.mode := mode_merge

theorem mode_durable : (w.merge durable value).mode = value.mode := mode_merge

theorem mode_and (h6 : mask.getLsbD 6 = true) (h7 : mask.getLsbD 7 = true)
    (h16 : mask.getLsbD 16 = true) : (w &&& mask).mode = w.mode := by
  unfold mode current pending trial bitGet
  simp only [getLsbD_and, h6, h7, h16, Bool.and_true]

def stored (w : Word) : Word := withMagic (w &&& durable)

theorem mode_stored : (stored w).mode = w.mode := by
  have h : (stored w).mode = (w &&& durable).mode := @mode_merge (w &&& durable) maskMagic _
  exact h.trans (mode_and rfl rfl rfl)

theorem failGet_congr (h4 : w.getLsbD 4 = value.getLsbD 4) (h5 : w.getLsbD 5 = value.getLsbD 5) :
    w.failGet = value.failGet := by
  apply eq_of_getLsbD_eq
  intro i hi
  have hmask : ∀ i < 32, maskFail.getLsbD (4 + i) = decide (i < 2) := by decide
  unfold failGet
  rw [getLsbD_ushiftRight, getLsbD_ushiftRight, getLsbD_and, getLsbD_and, hmask i hi]
  match i with
  | 0 => rw [h4]
  | 1 => rw [h5]
  | i + 2 => rw [decide_eq_false (by omega), Bool.and_false, Bool.and_false]

theorem failGet_stored : (stored w).failGet = w.failGet := by
  have hbit : ∀ i, maskMagic.getLsbD i = false → durable.getLsbD i = true →
      (stored w).getLsbD i = w.getLsbD i := by
    intro i hm hd
    have h := @getLsbD_merge (w &&& durable) maskMagic (0xA5#32 <<< 8) i
    rw [hm, if_neg Bool.false_ne_true, getLsbD_and, hd, Bool.and_true] at h
    exact h
  exact failGet_congr (hbit 4 rfl rfl) (hbit 5 rfl rfl)

theorem failGet_and_all : failGet (w &&& maskAll) = w.failGet := by
  refine failGet_congr ?_ ?_
  · rw [getLsbD_and]
    exact Bool.and_true _
  · rw [getLsbD_and]
    exact Bool.and_true _

theorem failGet_all : (w.merge maskAll value).failGet = value.failGet := by
  refine failGet_congr ?_ ?_
  · exact getLsbD_merge 4
  · exact getLsbD_merge 5

theorem getLsbD_bitPut {bit : Nat} {value : Bool} (hb : bit < 32) (i : Nat) :
    (w.bitPut bit value).getLsbD i = if i = bit then value else w.getLsbD i := by
  unfold bitPut
  cases value with
  | true =>
    rw [if_pos rfl, Bool.eq_iff_iff, Bits.getLsbD_setBit hb]
    split <;> simp [*]
  | false =>
    rw [if_neg Bool.false_ne_true, Bool.eq_iff_iff, Bits.getLsbD_clearBit hb]
    split <;> simp [*]

/-- The switches are not among the bits that decide what boots. -/
theorem mode_bitPut {bit : Nat} {value : Bool} (hb : bit < 6) : (w.bitPut bit value).mode = w.mode := by
  unfold mode current pending trial bitGet
  rw [getLsbD_bitPut (by omega), getLsbD_bitPut (by omega), getLsbD_bitPut (by omega),
    if_neg (by omega), if_neg (by omega), if_neg (by omega)]

/-- A rollback of a pending word. -/
theorem resolvePending_eq (h : w.pending = true) : ∃ r, w.resolvePending failVerify = some r ∧
    r.mode = ⟨!w.current, false, false⟩ ∧ r.failGet = failVerify := by
  unfold resolvePending
  rw [if_neg (by rw [h]; exact Bool.noConfusion)]
  refine ⟨_, rfl, ?_, ?_⟩
  · rw [failPut, failEncode, ← merge, mode_fail]
    unfold mode current pending trial bitGet
    simp only [getLsbD_bitPut (show 6 < 32 by decide), getLsbD_bitPut (show 7 < 32 by decide),
      getLsbD_bitPut (show 16 < 32 by decide)]
    rfl
  · rw [failPut, failEncode, ← merge]
    have h : ∀ w : Word, (w.merge maskFail (failVerify <<< 4)).failGet = failGet (failVerify <<< 4) :=
      fun w => failGet_congr (getLsbD_merge 4) (getLsbD_merge 5)
    rw [h]
    decide

end Word

/-! ## What an update does to the medium -/

namespace Boot

open Word

variable {b : Boot} {area : Bool}

/-- The RAM and the medium agree on what boots. -/
def Synced (b : Boot) : Prop := b.ram.mode = (b.record.getD 0).mode

theorem Synced.update (h : Synced b) (mask value : Word) : Synced (b.stateUpdate mask value true) := by
  have hr : ((b.stateUpdate mask value true).record.getD 0).mode =
      ((b.record.getD 0).merge mask value).mode := mode_stored
  unfold Synced
  rw [hr]
  have h1 := congrArg Mode.current h
  have h2 := congrArg Mode.pending h
  have h3 := congrArg Mode.trial h
  change b.ram.current = _ at h1
  change b.ram.pending = _ at h2
  change b.ram.trial = _ at h3
  change (b.ram.merge mask value).mode = _
  rw [mode_merge, mode_merge, h1, h2, h3]
  rfl

theorem stateReload_mode (b : Boot) : b.stateReload.ram.mode = (b.record.getD 0).mode ∧
    b.stateReload.record = b.record ∧ b.stateReload.areas = b.areas ∧
      b.stateReload.history = b.history := by
  unfold stateReload
  split
  · rename_i w hw
    rw [hw]
    exact ⟨mode_durable, rfl, rfl, rfl⟩
  · rename_i hw
    have h0 : b.ram.merge durable 0 = b.ram &&& ~~~durable := by simp [merge]
    rw [hw]
    exact ⟨h0 ▸ mode_durable, rfl, rfl, rfl⟩

/-- What `mini_boot_state_load` makes of the bits that it finds. -/
def resetMode (m : Mode) : Mode :=
  if m.pending = false then m
  else if m.trial = false then { m with trial := true }
  else ⟨!m.current, false, false⟩

/-- A rollback: the word that is stored, and what it says. -/
theorem stateUpdate_rollback (hp : b.ram.pending = true) (stores : Bool) :
    ∃ r, b.ram.resolvePending failVerify = some r ∧
      (b.stateUpdate maskAll (r &&& maskAll) stores).ram.mode = ⟨!b.ram.current, false, false⟩ ∧
      (b.stateUpdate maskAll (r &&& maskAll) stores).ram.failGet = failVerify ∧ (stores = true →
        ((b.stateUpdate maskAll (r &&& maskAll) stores).record.getD 0).failGet = failVerify) := by
  obtain ⟨r, hres, hmode, hfail⟩ := resolvePending_eq hp
  have hf : failGet (r &&& maskAll) = failVerify := by
    rw [failGet_and_all]
    exact hfail
  refine ⟨r, hres, ?_, ?_, ?_⟩
  · change (b.ram.merge maskAll (r &&& maskAll)).mode = _
    rw [mode_all, mode_and rfl rfl rfl, hmode]
  · change (b.ram.merge maskAll (r &&& maskAll)).failGet = _
    rw [failGet_all, hf]
  · rintro rfl
    change (stored ((b.record.getD 0).merge maskAll (r &&& maskAll))).failGet = _
    rw [failGet_stored, failGet_all, hf]

theorem stateLoad_spec (b : Boot) (stores : Bool) :
    (b.stateLoad stores).ram.mode = resetMode (b.record.getD 0).mode ∧
      (b.stateLoad stores).areas = b.areas ∧ (b.stateLoad stores).history = b.history ∧
      (stores = true → Synced (b.stateLoad stores)) := by
  obtain ⟨hm, hr, ha, hh⟩ := b.stateReload_mode
  have hs : Synced b.stateReload := by
    unfold Synced
    rw [hr]
    exact hm
  rw [← hm]
  unfold stateLoad
  dsimp only
  split
  · rename_i hp
    refine ⟨?_, ha, hh, fun _ => hs⟩
    exact (if_pos hp).symm
  rename_i hp
  split
  · rename_i ht
    refine ⟨?_, ha, hh, ?_⟩
    · exact mode_trial.trans ((if_neg hp).trans (if_pos ht)).symm
    · rintro rfl
      exact hs.update _ _
  rename_i ht
  obtain ⟨r, hres, hmode, -⟩ := stateUpdate_rollback (Bool.not_eq_false _ ▸ hp) stores
  rw [hres]
  refine ⟨?_, ha, hh, ?_⟩
  · exact hmode.trans ((if_neg hp).trans (if_neg ht)).symm
  · rintro rfl
    exact hs.update _ _

/-- The verify code is what a rollback leaves. -/
theorem stateLoad_fail (b : Boot) (hp : (b.record.getD 0).pending = true)
    (ht : (b.record.getD 0).trial = true) : (b.stateLoad true).ram.failGet = failVerify ∧
      ((b.stateLoad true).record.getD 0).failGet = failVerify := by
  obtain ⟨hm, -⟩ := b.stateReload_mode
  have hp' : b.stateReload.ram.pending = true := (congrArg Mode.pending hm).trans hp
  have ht' : b.stateReload.ram.trial = true := (congrArg Mode.trial hm).trans ht
  obtain ⟨r, hres, -, hf, hf'⟩ := stateUpdate_rollback hp' true
  unfold stateLoad
  rw [if_neg (by rw [hp']; exact Bool.noConfusion), if_neg (by rw [ht']; exact Bool.noConfusion), hres]
  exact ⟨hf, hf' rfl⟩

/-! ## What a download leaves alone -/

/-- Only `area` is worked on. -/
structure Fetched (area : Bool) (b b' : Boot) : Prop where
  ram : b'.ram = b.ram
  record : b'.record = b.record
  areas : ∀ p, p ≠ area → b'.areas p = b.areas p
  boots : ∀ p, b'.history.boots p = b.history.boots p ∨ p = area ∧ b'.history.boots p = none
  history : ∃ ops, (∀ op ∈ ops, op = (area, b.history.booted)) ∧ b'.history =
    { b.history with boots := b'.history.boots, touched := b.history.touched ++ ops }

theorem Fetched.refl (b : Boot) : Fetched area b b where
  ram := rfl
  record := rfl
  areas _ _ := rfl
  boots _ := .inl rfl
  history := by
    refine ⟨[], fun op hm => (List.not_mem_nil hm).elim, ?_⟩
    rw [List.append_nil]

theorem Fetched.trans {b b' b'' : Boot} (h : Fetched area b b')
    (h' : Fetched area b' b'') : Fetched area b b'' where
  ram := h'.ram.trans h.ram
  record := h'.record.trans h.record
  areas p hp := (h'.areas p hp).trans (h.areas p hp)
  boots p := by
    rcases h'.boots p with hp | hp
    · rw [hp]
      exact h.boots p
    · exact .inr hp
  history := by
    obtain ⟨ops, hops, he⟩ := h.history
    obtain ⟨ops', hops', he'⟩ := h'.history
    rw [he] at hops' he'
    refine ⟨ops ++ ops', List.forall_mem_append.mpr ⟨hops, hops'⟩, ?_⟩
    rw [he', List.append_assoc]

theorem fetched_touch (b : Boot) (area : Bool) (f : Flash) : Fetched area b (b.touch area f) where
  ram := rfl
  record := rfl
  areas _ hp := update_of_ne hp ..
  boots p := (eq_or_ne p area).elim (fun h => .inr ⟨h, h ▸ update_self ..⟩) fun h =>
    .inl (update_of_ne h ..)
  history := ⟨[(area, b.history.booted)], fun _ hm => List.mem_singleton.mp hm, rfl⟩

theorem fetched_downloadLoop (cfg : BootCfg) (area : Bool) (totalLen : Nat) (answers : List Answer)
    (received : Nat) (b : Boot) :
    Fetched area b (downloadLoop cfg area totalLen answers received b).1 := by
  induction answers generalizing received b with
  | nil => exact .refl b
  | cons answer rest ih =>
    unfold downloadLoop
    split
    · exact .refl b
    cases answer with
    | fail => exact .refl b
    | torn data => exact fetched_touch ..
    | chunk data =>
      dsimp only
      split
      · exact .refl b
      · exact (fetched_touch ..).trans (ih ..)

theorem fetched_fetch (cfg : BootCfg) (b : Boot) (opens erases : Bool) (totalLen : Nat)
    (answers : List Answer) : Fetched b.inactive b (b.fetch cfg opens erases totalLen answers).1 := by
  unfold fetch
  split
  · exact .refl b
  split
  · exact fetched_touch ..
  · exact (fetched_touch ..).trans (fetched_downloadLoop ..)

end Boot

end MiniTree.Ota
