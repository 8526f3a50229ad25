import MiniTree.Board.ConfigHealth
import MiniTree.Core.LTS

/-!
# Commits and power cuts (`board/src/config_store.c`)

`config_store_commit` as a run of HAL calls: the flag is read, the blob goes to the other slot, is
read back, and the flag is written. Each call can fail, and the power can go in it or between two. A
flag write is done or not; any other write that is cut leaves any bytes in its slot. Tables that were
committed are kept in `done`, the last one in front.

**Results.** `commit_safe`: as long as no commit fails to read a flag that names slot A, the slot the
flag names has the table committed last, with a good checksum, and a cut inside a commit leaves that
one or the new one. `commit_overwrites_live_slot` is a commit that could not read the flag: it takes
slot A, the live one, and the cut leaves no table at all.
-/

namespace MiniTree.Config

open MiniTree.Core Option List
open Storage (slotFlag)

/-! ## The model -/

/-- The HAL call a commit does next. -/
inductive Stage where
  | write | verify | flag
  deriving DecidableEq, Repr

inductive Phase where
  | idle
  | commit (stage : Stage) (target : Bool) (table : List Entry) (payload : Bytes)
  deriving DecidableEq

structure Device where
  storage : Storage
  entries : List Entry
  phase : Phase
  /-- the committed tables, the last one first -/
  done : List (List Entry)
  deriving DecidableEq

inductive WriteOutcome where
  | ok | failed | cut
  deriving DecidableEq, Repr

inductive FlagOutcome where
  | written | failed | cutBefore | cutAfter
  deriving DecidableEq, Repr

def FlagOutcome.takesEffect : FlagOutcome → Bool
  | written | cutAfter => true
  | failed | cutBefore => false

inductive Step where
  /-- the setters, between commits -/
  | table (entries : List Entry)
  | begin (flagRead : Bool)
  /-- `bytes` is what the slot holds afterwards -/
  | write (bytes : Bytes) (outcome : WriteOutcome)
  | verify (readable : Bool)
  | flag (outcome : FlagOutcome)
  /-- the power goes between two HAL calls -/
  | cut
  | init (factory : List Entry) (first : Bool) (io : LoadIo) (fuel : Nat)

namespace Device

/-- mirrors config_store.c:693-716 (`config_store_commit`), to the write of the blob -/
def begin (d : Device) (flagRead : Bool) : Device :=
  match blobSerialize blobMax d.entries with
  | none => d
  | some _ =>
    let target := decide (readSlotFlag flagRead d.storage = flagA)
    match blobSerialize (blobMax - 4) d.entries with
    | none => d
    | some payload => { d with phase := .commit .write target d.entries payload }

/-- mirrors config_store.c:478-503 (`save_to_storage`), 719-726 -/
def next (d : Device) (l : Step) : Option Device :=
  match l, d.phase with
  | .table entries, .idle => some { d with entries := entries }
  | .begin flagRead, .idle => some (d.begin flagRead)
  | .write bytes outcome, .commit .write target table payload =>
    let d := { d with storage := d.storage.write target bytes }
    if outcome = .ok then some { d with phase := .commit .verify target table payload }
    else some { d with phase := .idle }
  | .verify readable, .commit .verify target table payload =>
    if readable = true ∧ d.storage.blob target = some (withCrc payload) then
      some { d with phase := .commit .flag target table payload }
    else some { d with phase := .idle }
  | .flag outcome, .commit .flag target table _ =>
    if outcome.takesEffect then
      some { d with
        storage := { d.storage with flag := slotFlag target }
        phase := .idle
        done := table :: d.done }
    else some { d with phase := .idle }
  | .cut, _ => some { d with phase := .idle, entries := [] }
  | .init factory first io fuel, .idle =>
    (initLive first io factory fuel d.storage 0).map fun s =>
      { d with storage := s.store.storage, entries := s.store.entries }
  | _, _ => none

def committing (d : Device) : Option (List Entry) :=
  match d.phase with
  | .idle => none
  | .commit _ _ table _ => some table

/-- The slot named by the flag holds the table that was committed last. -/
def Holds (d : Device) : Prop :=
  ∀ slot, d.storage.flag = slotFlag slot → ∃ table buf, d.done.head? = some table ∧
    (blobSerialize (blobMax - 4) table).map withCrc = some buf ∧ d.storage.blob slot = some buf ∧
      ¬ CrcBad buf

/-- No commit fails to read the flag while it names slot A. -/
def FlagRead (d : Device) (l : Step) : Prop :=
  match l with
  | .begin false => d.storage.flag ≠ flagA
  | _ => True

instance (d : Device) (l : Step) : Decidable (d.FlagRead l) := by
  unfold FlagRead
  split <;> infer_instance

end Device

/-- A storage whose flag names no slot. -/
def Device.Initial (d : Device) : Prop :=
  (∀ slot, d.storage.flag ≠ slotFlag slot) ∧ d.phase = .idle ∧ d.done = []

def commits : LTS Device Step := LTS.ofFn Device.Initial Device.next

/-! ## Blobs and slots -/

theorem slotFlag_injective : Function.Injective slotFlag := by
  intro a b
  cases a <;> cases b <;> decide

theorem not_crcBad_withCrc (payload : Bytes) : ¬ CrcBad (withCrc payload) := by
  unfold CrcBad
  rw [drop_withCrc, le32At_withCrc]
  exact not_not_intro rfl

variable {st : Storage} {target slot ok : Bool}

theorem blob_write_other (st : Storage) (h : slot ≠ target) (b : Bytes) :
    (st.write target b).blob slot = st.blob slot := by
  cases slot <;> cases target <;> first | rfl | exact absurd rfl h

theorem flag_write (st : Storage) (slot : Bool) (b : Bytes) : (st.write slot b).flag = st.flag := by
  cases slot <;> rfl

/-- A flag that is read and names a slot is the stored one. -/
theorem flag_of_readSlotFlag
    (h : readSlotFlag ok st = slotFlag slot) : st.flag = slotFlag slot := by
  unfold readSlotFlag at h
  split at h
  · exact h
  · cases slot <;> exact absurd h (by decide)

/-- The target of a commit is not the slot that the flag names. -/
theorem flag_ne_target (h : ok = false → st.flag ≠ flagA) :
    st.flag ≠ slotFlag (decide (readSlotFlag ok st = flagA)) := by
  by_cases hread : readSlotFlag ok st = flagA
  · have hflag : st.flag = flagA := @flag_of_readSlotFlag st false ok hread
    rw [decide_eq_true hread, hflag]
    decide
  rw [decide_eq_false hread]
  cases ok with
  | true => exact hread
  | false => exact h rfl

/-- A start leaves a storage alone whose flagged slot has a good blob. -/
theorem initLive_storage {first : Bool} {io : LoadIo} {factory : List Entry} {fuel : Nat} {s : Live}
    (h : initLive first io factory fuel st 0 = some s)
    (hgood : ∀ slot, st.flag = slotFlag slot → ∀ buf, st.blob slot = some buf → ¬ CrcBad buf) :
    s.store.storage = st := by
  have hload : ∀ slot r, st.flag = slotFlag slot →
      loadSlot io factory fuel 0 slot ⟨⟨st, factory⟩, 0⟩ = some r → r.1.store.storage = st := by
    intro slot r hslot hr
    cases fuel with
    | zero => cases hr
    | succ fuel =>
      rw [loadSlot] at hr
      split at hr
      · cases hr
        rfl
      rename_i buf hbuf
      have hb : st.blob slot = some buf := by
        split at hbuf
        · exact hbuf
        · cases hbuf
      split at hr
      · cases hr
        rfl
      · rw [if_neg (hgood slot hslot buf hb)] at hr
        cases hr
        rfl
  unfold initLive at h
  dsimp only at h
  split at h
  · rename_i hA
    obtain ⟨r, hr, hs⟩ := map_eq_some_iff.mp h
    rw [← hs]
    exact hload false r (flag_of_readSlotFlag hA) hr
  split at h
  · rename_i hB
    obtain ⟨r, hr, hs⟩ := map_eq_some_iff.mp h
    rw [← hs]
    exact hload true r (flag_of_readSlotFlag hB) hr
  · cases h
    rfl

/-! ## Runs -/

/-- A commit writes the slot that the flag does not name, and has checked it before the flag. -/
structure Device.Safe (d : Device) : Prop where
  holds : d.Holds
  target : ∀ stage target table payload, d.phase = .commit stage target table payload →
    d.storage.flag ≠ slotFlag target ∧ blobSerialize (blobMax - 4) table = some payload ∧
      (stage = .flag → d.storage.blob target = some (withCrc payload))

namespace Device.Safe

variable {d d' : Device}

theorem idle (h : d.Holds) (hp : d.phase = .idle) : d.Safe :=
  ⟨h, fun _ _ _ _ hc => by rw [hp] at hc; cases hc⟩

theorem begin (h : d.Safe) {flagRead : Bool} (hr : flagRead = false → d.storage.flag ≠ flagA) :
    (d.begin flagRead).Safe := by
  unfold Device.begin
  split
  · exact h
  dsimp only
  split
  · exact h
  rename_i payload hpay
  refine ⟨h.holds, fun stage target table p hc => ?_⟩
  cases hc
  exact ⟨flag_ne_target hr, hpay, nofun⟩

/-- A write to the target leaves the named slot as it is. -/
theorem write (h : d.Safe) {stage : Stage} {table : List Entry} {payload : Bytes}
    (hp : d.phase = .commit stage target table payload) (bytes : Bytes) (phase : Phase) :
    Device.Holds { d with storage := d.storage.write target bytes, phase := phase } := by
  intro slot hslot
  dsimp only at hslot ⊢
  rw [flag_write] at hslot
  have hne : slot ≠ target := by
    rintro rfl
    exact (h.target _ _ _ _ hp).1 hslot
  rw [blob_write_other _ hne]
  exact h.holds slot hslot

theorem next (h : d.Safe) {l : Step} (hl : d.FlagRead l) (hn : d.next l = some d') : d'.Safe := by
  unfold Device.next at hn
  split at hn
  · rename_i hp
    cases hn
    exact .idle h.holds hp
  · rename_i flagRead _
    cases hn
    refine h.begin fun hr => ?_
    subst hr
    exact hl
  · rename_i bytes outcome target table payload hp
    have hhold := h.write hp bytes
    obtain ⟨hne, hpay, -⟩ := h.target _ _ _ _ hp
    split at hn
    · cases hn
      refine ⟨hhold _, fun stage' target' table' payload' hc => ?_⟩
      cases hc
      exact ⟨by rw [flag_write]; exact hne, hpay, nofun⟩
    · cases hn
      exact .idle (hhold _) rfl
  · rename_i readable target table payload hp
    obtain ⟨hne, hpay, -⟩ := h.target _ _ _ _ hp
    split at hn
    · rename_i hok
      cases hn
      refine ⟨h.holds, fun stage' target' table' payload' hc => ?_⟩
      cases hc
      exact ⟨hne, hpay, fun _ => hok.2⟩
    · cases hn
      exact .idle h.holds rfl
  · rename_i outcome target table payload hp
    obtain ⟨hne, hpay, hblob⟩ := h.target _ _ _ _ hp
    split at hn
    · cases hn
      refine .idle (fun slot hslot => ?_) rfl
      obtain rfl := slotFlag_injective hslot
      refine ⟨table, withCrc payload, rfl, ?_, hblob rfl, not_crcBad_withCrc payload⟩
      rw [hpay]
      rfl
    · cases hn
      exact .idle h.holds rfl
  · cases hn
    exact .idle h.holds rfl
  · rename_i factory first io fuel hp
    obtain ⟨s, hs, hd⟩ := map_eq_some_iff.mp hn
    have hst := initLive_storage hs fun slot hslot buf hb => by
      obtain ⟨_, buf', -, -, hb', hgood⟩ := h.holds slot hslot
      rw [some_inj.mp (hb.symm.trans hb')]
      exact hgood
    rw [← hd, hst]
    exact .idle h.holds hp
  · cases hn

end Device.Safe

theorem commits_safe : (commits.restrict Device.FlagRead).IsInvariant Device.Safe := by
  refine ⟨fun d h0 => ?_, fun d l d' h hn => ?_⟩
  · obtain ⟨hflag, hp, -⟩ := h0
    exact .idle (fun slot hslot => absurd hslot (hflag slot)) hp
  · obtain ⟨hl, hn⟩ := hn
    exact h.next hl hn

/-- Only the table of the commit that is going on is added to those that are done. -/
theorem Device.done_step {d d' : Device} {l : Step} (hn : d.next l = some d') :
    d'.done = d.done ∨ ∃ table, d.committing = some table ∧ d'.done = table :: d.done := by
  unfold Device.next at hn
  split at hn
  · cases hn
    exact .inl rfl
  · cases hn
    unfold Device.begin
    split
    · exact .inl rfl
    dsimp only
    split <;> exact .inl rfl
  · split at hn <;> cases hn <;> exact .inl rfl
  · split at hn <;> cases hn <;> exact .inl rfl
  · rename_i outcome target table payload hp
    split at hn
    · cases hn
      refine .inr ⟨table, ?_, rfl⟩
      unfold committing
      rw [hp]
    · cases hn
      exact .inl rfl
  · cases hn
    exact .inl rfl
  · obtain ⟨s, -, hd⟩ := map_eq_some_iff.mp hn
    rw [← hd]
    exact .inl rfl
  · cases hn

theorem commit_safe {d : Device} (h : (commits.restrict Device.FlagRead).Reachable d) :
    d.Holds ∧ ∀ l d', d.next l = some d' →
      d'.done = d.done ∨ ∃ table, d.committing = some table ∧ d'.done = table :: d.done :=
  ⟨(commits_safe.holds h).holds, fun _ _ => Device.done_step⟩

def erased : Device := ⟨⟨0xFF, none, none⟩, [], .idle, []⟩

def firstCommit : List Step := [.table [mkEntry (ascii "a") (.int 7)], .begin true,
    .write (withCrc ((blobSerialize (blobMax - 4) [mkEntry (ascii "a") (.int 7)]).getD [])) .ok,
    .verify true, .flag .written]

theorem erased_initial : erased.Initial := ⟨by decide, rfl, rfl⟩

/-- A second commit is cut in its write: slot B has any bytes, slot A the first table. -/
theorem commit_safe_cut : ∃ d, (commits.restrict Device.FlagRead).Reachable d ∧
    (d.storage.flag = flagA ∧ d.storage.blobB = some [1, 2, 3]) ∧ d.Holds ∧
      ∀ l d', d.next l = some d' →
        d'.done = d.done ∨ ∃ table, d.committing = some table ∧ d'.done = table :: d.done := by
  obtain ⟨d, hd, hp⟩ := LTS.Reachable.of_execOk Device.Initial Device.next Device.FlagRead erased
    (firstCommit ++ [.table [], .begin true, .write [1, 2, 3] .cut])
    (fun d => d.storage.flag = flagA ∧ d.storage.blobB = some [1, 2, 3]) erased_initial
    (by decide +kernel)
  exact ⟨d, hd, hp, commit_safe hd⟩

/-- The second commit cannot read the flag and is cut in its write. -/
theorem commit_overwrites_live_slot : ¬ ∀ d, commits.Reachable d → d.Holds := by
  intro h
  obtain ⟨d, hd, hflag, hblob⟩ := LTS.Reachable.of_exec Device.Initial Device.next erased
    (firstCommit ++ [.begin false, .write [1, 2, 3] .cut])
    (fun d => d.storage.flag = flagA ∧ d.storage.blobA = some [1, 2, 3]) erased_initial
    (by decide +kernel)
  obtain ⟨_, buf, -, hbuf, hslot, -⟩ := h d hd false hflag
  have heq : buf = [1, 2, 3] := some_inj.mp (hslot.symm.trans hblob)
  obtain ⟨payload, -, hpay⟩ := map_eq_some_iff.mp hbuf
  have hlen := congrArg length (hpay.trans heq)
  rw [withCrc, length_append, toLe32_length] at hlen
  exact absurd hlen (by rw [length_cons]; simp; omega)

end MiniTree.Config
