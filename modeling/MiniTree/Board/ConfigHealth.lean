import MiniTree.Board.ConfigPersist

/-!
# What the store does with a corrupt slot (`board/src/config_store.c`)

`load_from_storage` with the health value and with HAL calls that fail. A slot whose checksum is
wrong sends it to the other slot, unless the flag names that one.

**Results.** `loadSlot_good`: with HAL calls that succeed, the load ends after at most two calls.
`Boot.truthful_iff`: the health value, the table and the flag are
as documented exactly when the slot it falls back to cannot be read, or has a good checksum and a
payload that is read through.
-/

namespace MiniTree.Config

open MiniTree.Core Option Prod
open Storage (slotFlag)

/-- Which HAL calls of `load_from_storage` succeed, by the depth of the call. -/
structure LoadIo where
  blob : Nat → Bool
  flag : Nat → Bool
  write : Nat → Bool

def LoadIo.good : LoadIo := ⟨fun _ => true, fun _ => true, fun _ => true⟩

structure Live where
  store : Store
  health : Int
  deriving DecidableEq

def CrcBad (buf : Bytes) : Prop := ⟨crc32Le 0 (buf.drop 4)⟩ ≠ le32At buf 0
  deriving Decidable

/-- mirrors config_store.c:415-422 -/
def readSlotFlag (ok : Bool) (st : Storage) : UInt8 := if ok then st.flag else 0xFF

/-- The load of a slot; `none` when the recursion is deeper than `fuel`.
mirrors config_store.c:441-471 (`load_from_storage`) -/
def loadSlot (io : LoadIo) (factory : List Entry) : Nat → Nat → Bool → Live → Option (Live × Bool)
  | 0, _, _, _ => none
  | fuel + 1, depth, slot, s =>
    match (if io.blob depth then s.store.storage.blob slot else none) with
    | none => some (s, false)
    | some buf =>
      if buf.length < 6 then some (s, false)
      else if CrcBad buf then
        if readSlotFlag (io.flag depth) s.store.storage ≠ slotFlag (!slot) then
          match loadSlot io factory fuel (depth + 1) (!slot) s with
          | none => none
          | some (r, true) =>
            let flag := if io.write depth then slotFlag (!slot) else r.store.storage.flag
            some (⟨{ r.store with storage := { r.store.storage with flag := flag } }, 1⟩, true)
          | some (r, false) => some (⟨{ r.store with entries := factory }, -1⟩, true)
        else some (⟨{ s.store with entries := factory }, -1⟩, true)
      else
        let table := blobDeserialize (buf.drop 4) s.store.entries
        some (⟨{ s.store with entries := table.1 }, s.health⟩, table.2)

/-- The start behind `load_factory_defaults`; `first` is the outcome of the first flag read.
mirrors config_store.c:509-524 (`config_store_init`) -/
def initLive (first : Bool) (io : LoadIo) (factory : List Entry) (fuel : Nat) (st : Storage)
    (health : Int) : Option Live :=
  let s : Live := ⟨⟨st, factory⟩, health⟩
  let flag := readSlotFlag first st
  if flag = flagA then (loadSlot io factory fuel 0 false s).map fst
  else if flag = flagB then (loadSlot io factory fuel 0 true s).map fst
  else some s

/-- A start with a valid source, where the HAL calls succeed. -/
structure Boot where
  libc : Libc
  src : Source
  factory : List Entry
  valid : loadFactoryDefaults libc src = some factory
  storage : Storage
  health : Int

namespace Storage

def Readable (st : Storage) (slot : Bool) (buf : Bytes) : Prop :=
  st.blob slot = some buf ∧ 6 ≤ buf.length

def Corrupt (st : Storage) (slot : Bool) : Prop := ∃ buf, st.Readable slot buf ∧ CrcBad buf

end Storage

namespace Boot

variable (b : Boot)

def init (fuel : Nat) : Option Live := initLive true .good b.factory fuel b.storage b.health

/-- What the flagged slot was recovered to. -/
structure Recovered (s : Live) (buf : Bytes) : Prop where
  health : s.health = 1
  entries : s.store.entries = (blobDeserialize (buf.drop 4) b.factory).1

/-- The factory table is in use, and the flag was not made to name a corrupt slot. -/
structure FellBack (s : Live) : Prop where
  health : s.health = -1
  entries : s.store.entries = b.factory
  flag : s.store.storage.flag = b.storage.flag ∨
    ∀ slot, s.store.storage.flag = slotFlag slot → ¬ b.storage.Corrupt slot

/-- When the flagged slot is corrupt, the store is recovered from the other one if that is readable
with a good checksum, and otherwise falls back to the factory table. -/
def Truthful : Prop := ∀ slot, b.storage.flag = slotFlag slot → b.storage.Corrupt slot →
    ∀ n s, b.init (n + 2) = some s →
      (∀ buf, b.storage.Readable (!slot) buf → ¬ CrcBad buf → b.Recovered s buf) ∧
      ((∀ buf, b.storage.Readable (!slot) buf → CrcBad buf) → b.FellBack s)

/-- The other slot, if it can be read, has a good checksum and is read through. -/
def OtherSound : Prop := ∀ slot, b.storage.flag = slotFlag slot → b.storage.Corrupt slot →
    ∀ buf, b.storage.Readable (!slot) buf →
      ¬ CrcBad buf ∧ (blobDeserialize (buf.drop 4) b.factory).2 = true

end Boot

/-! ## Loads that end -/

/-- The load of a slot that does not go to the other one. -/
def loadOnce (factory : List Entry) (slot : Bool) (s : Live) : Live × Bool :=
  match s.store.storage.blob slot with
  | none => (s, false)
  | some buf =>
    if buf.length < 6 then (s, false)
    else if CrcBad buf then (⟨{ s.store with entries := factory }, -1⟩, true)
    else
      let table := blobDeserialize (buf.drop 4) s.store.entries
      (⟨{ s.store with entries := table.1 }, s.health⟩, table.2)

/-- What the fall back to a slot makes of its result. -/
def fallBack (factory : List Entry) (slot : Bool) (r : Live × Bool) : Live :=
  if r.2 = true then
    ⟨{ r.1.store with storage := { r.1.store.storage with flag := slotFlag slot } }, 1⟩
  else ⟨{ r.1.store with entries := factory }, -1⟩

section

variable {factory : List Entry} {slot : Bool} {s : Live}

theorem loadSlot_other (h : s.store.storage.flag = slotFlag (!slot)) (n depth : Nat) :
    loadSlot .good factory (n + 1) depth slot s = some (loadOnce factory slot s) := by
  unfold loadSlot loadOnce LoadIo.good readSlotFlag
  simp only [if_true, h]
  cases s.store.storage.blob slot with
  | none => rfl
  | some buf =>
    dsimp only
    split
    · rfl
    split
    · rw [if_neg (not_not_intro rfl)]
    · rfl

theorem loadSlot_good (h : s.store.storage.flag = slotFlag slot) (n depth : Nat) :
    (s.store.storage.Corrupt slot ∧ loadSlot .good factory (n + 2) depth slot s =
      some (fallBack factory (!slot) (loadOnce factory (!slot) s), true)) ∨
    (¬ s.store.storage.Corrupt slot ∧
      loadSlot .good factory (n + 2) depth slot s = some (loadOnce factory slot s)) := by
  have hother : loadSlot .good factory (n + 1) (depth + 1) (!slot) s =
      some (loadOnce factory (!slot) s) := loadSlot_other (by rw [Bool.not_not]; exact h) n (depth + 1)
  have hne : s.store.storage.flag ≠ slotFlag (!slot) := by
    rw [h]
    cases slot <;> decide
  by_cases hcor : s.store.storage.Corrupt slot
  · refine .inl ⟨hcor, ?_⟩
    obtain ⟨buf, ⟨hb, hlen⟩, hbad⟩ := hcor
    rw [loadSlot, hother]
    unfold LoadIo.good readSlotFlag fallBack
    simp only [if_true, hb]
    rw [if_neg (not_lt.mpr hlen), if_pos hbad, if_pos hne]
    rcases loadOnce factory (!slot) s with ⟨r, _ | _⟩ <;> rfl
  · refine .inr ⟨hcor, ?_⟩
    unfold loadSlot loadOnce LoadIo.good
    simp only [if_true]
    cases hb : s.store.storage.blob slot with
    | none => rfl
    | some buf =>
      dsimp only
      split
      · rfl
      · have hgood : ¬ CrcBad buf := fun hbad => hcor ⟨buf, ⟨hb, not_lt.mp ‹_›⟩, hbad⟩
        rw [if_neg hgood, if_neg hgood]

theorem loadOnce_readable {buf : Bytes} (h : s.store.storage.Readable slot buf) :
    loadOnce factory slot s = if CrcBad buf then (⟨{ s.store with entries := factory }, -1⟩, true)
      else (⟨{ s.store with entries := (blobDeserialize (buf.drop 4) s.store.entries).1 }, s.health⟩,
        (blobDeserialize (buf.drop 4) s.store.entries).2) := by
  unfold loadOnce
  rw [h.1]
  exact if_neg (not_lt.mpr h.2)

theorem loadOnce_unreadable (h : ∀ buf, ¬ s.store.storage.Readable slot buf) :
    loadOnce factory slot s = (s, false) := by
  unfold loadOnce
  cases hb : s.store.storage.blob slot with
  | none => rfl
  | some buf => exact if_pos (not_le.mp fun hlen => h buf ⟨hb, hlen⟩)

end

namespace Boot

variable (b : Boot)

def live : Live := ⟨⟨b.storage, b.factory⟩, b.health⟩

theorem init_load {slot : Bool} (h : b.storage.flag = slotFlag slot) (n : Nat) :
    b.init n = (loadSlot .good b.factory n 0 slot b.live).map fst := by
  unfold init initLive readSlotFlag
  dsimp only
  rw [if_pos rfl, h]
  cases slot <;> rfl

theorem init_unflagged (h : ∀ slot, b.storage.flag ≠ slotFlag slot) (n : Nat) :
    b.init n = some b.live := by
  unfold init initLive readSlotFlag
  dsimp only
  rw [if_pos rfl, if_neg (show b.storage.flag ≠ flagA from h false),
    if_neg (show b.storage.flag ≠ flagB from h true)]
  rfl

/-- A start ends, and on a corrupt flagged slot as the other slot has it. -/
theorem init_eq (n : Nat) : (b.init (n + 2)).isSome ∧
    ∀ slot, b.storage.flag = slotFlag slot → b.storage.Corrupt slot →
      b.init (n + 2) = some (fallBack b.factory (!slot) (loadOnce b.factory (!slot) b.live)) := by
  constructor
  · by_cases h : ∃ slot, b.storage.flag = slotFlag slot
    · obtain ⟨slot, hslot⟩ := h
      rw [b.init_load hslot]
      rcases loadSlot_good (s := b.live) hslot n 0 with ⟨-, h⟩ | ⟨-, h⟩ <;> rw [h] <;> rfl
    · rw [b.init_unflagged fun slot hslot => h ⟨slot, hslot⟩]
      rfl
  · intro slot hslot hcor
    rw [b.init_load hslot]
    rcases loadSlot_good (s := b.live) hslot n 0 with ⟨-, h⟩ | ⟨hnot, -⟩
    · rw [h]
      rfl
    · exact absurd hcor hnot

theorem truthful_iff : (∀ n, (b.init (n + 2)).isSome) ∧ (b.Truthful ↔ b.OtherSound) := by
  refine ⟨fun n => (b.init_eq n).1, fun h slot hslot hcor buf hbuf => ?_,
    fun h slot hslot hcor n s hs => ?_⟩
  · have heq := (b.init_eq 0).2 slot hslot hcor
    have hread := @loadOnce_readable b.factory (!slot) b.live buf hbuf
    obtain ⟨hrec, hfell⟩ := h slot hslot hcor 0 _ heq
    have hbad : ¬ CrcBad buf := by
      intro hbad
      have hall : ∀ x, b.storage.Readable (!slot) x → CrcBad x := by
        intro x hx
        rw [some_inj.mp (hx.1.symm.trans hbuf.1)]
        exact hbad
      have hhealth := (hfell hall).health
      rw [hread, if_pos hbad] at hhealth
      exact absurd hhealth (by decide : (1 : Int) ≠ -1)
    refine ⟨hbad, ?_⟩
    by_contra hthrough
    have hhealth := (hrec buf hbuf hbad).health
    rw [if_neg hbad] at hread
    rw [fallBack, if_neg (by rw [hread]; exact hthrough)] at hhealth
    exact absurd hhealth (by decide : (-1 : Int) ≠ 1)
  · rw [(b.init_eq n).2 slot hslot hcor] at hs
    cases hs
    constructor
    · intro buf hbuf hgood
      have hread := @loadOnce_readable b.factory (!slot) b.live buf hbuf
      have hthrough := (h slot hslot hcor buf hbuf).2
      rw [if_neg hgood] at hread
      rw [fallBack, if_pos (by rw [hread]; exact hthrough), hread]
      exact ⟨rfl, rfl⟩
    · intro hall
      have hnone : ∀ buf, ¬ b.live.store.storage.Readable (!slot) buf := fun buf hbuf =>
        (h slot hslot hcor buf hbuf).1 (hall buf hbuf)
      rw [loadOnce_unreadable hnone, fallBack, if_neg Bool.false_ne_true]
      exact ⟨rfl, rfl, .inl rfl⟩

def bothCorrupt : Boot where
  libc := plainLibc
  src := sourceAB
  factory := (loadFactoryDefaults plainLibc sourceAB).getD []
  valid := by decide +kernel
  storage := ⟨flagA, some [1, 0, 0, 0, 0, 0], some [1, 0, 0, 0, 0, 0]⟩
  health := 0

end Boot

theorem truthful_fails_both_corrupt : ¬ ∀ b : Boot, b.Truthful := by
  intro h
  have hcor : ∀ slot, Boot.bothCorrupt.storage.Readable slot [1, 0, 0, 0, 0, 0] :=
    fun slot => ⟨by cases slot <;> rfl, by decide⟩
  have hinit : Boot.bothCorrupt.init 2 = some
      ⟨⟨⟨flagB, some [1, 0, 0, 0, 0, 0], some [1, 0, 0, 0, 0, 0]⟩,
        (loadFactoryDefaults plainLibc sourceAB).getD []⟩, 1⟩ := by decide +kernel
  have hfell := (h Boot.bothCorrupt false rfl ⟨_, hcor false, by decide +kernel⟩ 0 _ hinit).2
    fun buf hbuf => by
      rw [some_inj.mp (hbuf.1.symm.trans (hcor true).1)]
      decide +kernel
  exact absurd hfell.health (by decide : (1 : Int) ≠ -1)

end MiniTree.Config
