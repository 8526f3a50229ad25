import MiniTree.Ota.Journal

/-!
# The state journal as a register

Without power loss and flash errors a load gives the word that was stored last. The stores are
followed operation by operation, for what is programmed and how often the sector is erased.

**Results.** `Sector.isRegister_iff`: the journal is a register on a sector of at least one record
exactly when the sector is smaller than `2 ^ 32 - 8` bytes. On a larger one the end test of
`state_scan` wraps and the full sector is read past its end.
-/

namespace MiniTree.Ota.Journal

open MiniTree.Core List Option Nat

/-! ## Flash operations -/

/-- An operation of the flash backend. -/
inductive FlashOp where
  | erase
  | write (off : Nat) (w : Word)
  deriving DecidableEq, Repr

namespace FlashOp

def apply (slots : List Record) : FlashOp → List Record
  | erase => Journal.erase slots
  | write off w => if off % 8 = 0 then writeState slots off w else writeCheck slots off w

end FlashOp

/-- The four bytes at `off`. -/
def wordAt (slots : List Record) (off : Nat) : Option Word :=
  slots[off / 8]?.map fun r => if off % 8 = 0 then r.1 else r.2

/-- Every word that is programmed is erased when it is. -/
def OnErased : List Record → List FlashOp → Prop
  | _, [] => True
  | slots, .erase :: ops => OnErased (FlashOp.erase.apply slots) ops
  | slots, .write off w :: ops =>
    wordAt slots off = some 0xFFFFFFFF ∧ OnErased ((FlashOp.write off w).apply slots) ops

section
variable (size : Nat) (slots : List Record) (r : Record)

/-- The operations of a store; `none` where it returns an error.
mirrors bootutil/src/ota_state_flash.c:89-143 (`flash_state_store`) -/
def storeOps : Option (List FlashOp) :=
  if size < 8 then none
  else match stateScan size slots ⟨0, none⟩ with
    | none => none
    | some scan =>
      if size < (scan.used + 8) % 2 ^ 32 then some [.erase, .write 0 r.1, .write 4 r.2]
      else match slots[scan.used / 8]? with
        | none => none
        | some probe =>
          if probe ≠ blank then some [.erase, .write 0 r.1, .write 4 r.2]
          else some [.write scan.used r.1, .write (scan.used + 4) r.2]

/-- mirrors bootutil/src/ota_state.c:84-107 -/
def otaStateLoad : Option Word :=
  (flashStateLoad size slots).bind fun r => if recordValid r then some r.1 else none

/-- mirrors bootutil/src/ota_state.c:112-123 -/
def otaStateStore (w : Word) : List Record :=
  ((storeOps size slots (recordBuild w)).getD []).foldl FlashOp.apply slots

def storeAll (ws : List Word) : List Record :=
  ws.foldl (otaStateStore size) (List.replicate (size / 8) blank)

end

/-- How often the stores erase the sector. -/
def wear (size : Nat) : List Record → List Word → Nat
  | _, [] => 0
  | slots, w :: ws =>
    ((storeOps size slots (recordBuild w)).getD []).count .erase +
      wear size (otaStateStore size slots w) ws

/-- What is read is what was stored last, programming meets erased bytes, and no more stores than
the sector has records see more than one erase. -/
structure IsRegister (size : Nat) : Prop where
  stores : ∀ ws w, (storeOps size (storeAll size ws) (recordBuild w)).isSome
  load : ∀ ws w, otaStateLoad size (storeAll size (ws ++ [w])) = some (Word.withMagic w)
  erased : ∀ ws w ops, storeOps size (storeAll size ws) (recordBuild w) = some ops →
    OnErased (storeAll size ws) ops
  wear : ∀ ws next, next.length ≤ size / 8 → wear size (storeAll size ws) next ≤ 1

/-- A sector of at least one record; its size is a `uint32_t`. -/
structure Sector where
  size : Nat
  record : 8 ≤ size
  word : size < 2 ^ 32

/-! ## The scan -/

/-- The scan stops at a record's start. -/
theorem stateScan_used {size : Nat} {slots : List Record} {scan found : Scan}
    (h : stateScan size slots scan = some found) (h0 : scan.used % 8 = 0) : found.used % 8 = 0 := by
  induction slots generalizing scan with
  | nil =>
    obtain ⟨-, rfl⟩ := ite_some_none_eq_some.mp h
    exact h0
  | cons r rest ih =>
    unfold stateScan at h
    dsimp only at h
    split at h
    · cases h
      exact h0
    split at h
    · cases h
      exact h0
    split at h
    · cases h
      exact h0
    · exact ih h (by dsimp only; omega)

/-! ## A sector of records -/

/-- Valid records, then blank slots. -/
structure Filled (size : Nat) (slots recs : List Record) : Prop where
  eq : slots = recs ++ List.replicate (size / 8 - recs.length) blank
  le : recs.length ≤ size / 8
  valid : ∀ r ∈ recs, recordValid r = true

section

variable {size : Nat} {slots recs : List Record}

section
variable (h : Filled size slots recs)
include h

theorem Filled.split (hroom : recs.length < size / 8) :
    slots = recs ++ blank :: List.replicate (size / 8 - recs.length - 1) blank := by
  obtain ⟨n, hn⟩ : ∃ n, size / 8 - recs.length = n + 1 := ⟨size / 8 - recs.length - 1, by omega⟩
  rw [h.eq, hn, replicate_succ, Nat.add_sub_cancel]

theorem Filled.scan (hword : size < 2 ^ 32) (hroom : recs.length < size / 8) :
    stateScan size slots ⟨0, none⟩ = some ⟨8 * recs.length, recs.getLast?⟩ := by
  have happ := stateScan_append hword recs (blank :: List.replicate (size / 8 - recs.length - 1) blank)
    0 none h.valid (by omega)
  rw [zero_add, stateScan_invalid recordValid_blank, or_none] at happ
  rw [h.split hroom]
  exact happ

/-- The scan of a full sector; the end test can wrap. -/
theorem Filled.scan_full (hword : size < 2 ^ 32)
    (hfull : recs.length = size / 8) : stateScan size slots ⟨0, none⟩ =
      if size < 2 ^ 32 - 8 then some ⟨8 * recs.length, recs.getLast?⟩ else none := by
  have happ := stateScan_append hword recs [] 0 none h.valid (by omega)
  rw [zero_add, or_none, append_nil] at happ
  have hslots : slots = recs := by
    rw [h.eq, hfull, Nat.sub_self]
    exact append_nil _
  rw [hslots, happ, stateScan]
  dsimp only
  refine if_congr ?_ rfl rfl
  rw [hfull]
  constructor
  · intro hlt
    by_contra hge
    rw [show 8 * (size / 8) + 8 = 2 ^ 32 by omega, mod_self] at hlt
    exact not_lt_zero _ hlt
  · intro hlt
    rw [mod_eq_of_lt (by omega)]
    omega

end

theorem foldl_write (slots : List Record) {off : Nat} (hoff : off % 8 = 0) (r : Record) :
    [FlashOp.write off r.1, .write (off + 4) r.2].foldl FlashOp.apply slots =
      writeRecord slots off r .kept := by
  have hdiv : (off + 4) / 8 = off / 8 := by omega
  simp only [foldl_cons, foldl_nil, FlashOp.apply]
  rw [if_pos hoff, if_neg (by omega)]
  unfold writeRecord writeCheck
  rw [hdiv]

/-- A blank slot takes a record in two writes. -/
theorem write_blank (front rest : List Record) (r : Record) : OnErased (front ++ blank :: rest)
      [.write (8 * front.length) r.1, .write (8 * front.length + 4) r.2] := by
  have h0 : 8 * front.length % 8 = 0 := mul_mod_right _ _
  have hdiv : (8 * front.length + 4) / 8 = 8 * front.length / 8 := by omega
  have hget : ∀ x : Record, (front ++ x :: rest)[8 * front.length / 8]? = some x := by
    intro x
    rw [Nat.mul_div_cancel_left _ (by decide), List.getElem?_append_right (le_refl _),
      Nat.sub_self]
    rfl
  refine ⟨?_, ?_, trivial⟩
  · unfold wordAt
    rw [hget, map_some, if_pos h0]
    rfl
  · simp only [FlashOp.apply]
    rw [if_pos h0, writeState, modify_slot]
    unfold wordAt
    rw [hdiv, hget, map_some, if_neg (by omega)]
    rfl

/-- Without power loss the operations are the store. -/
theorem otaStateStore_eq (size : Nat) (slots : List Record) (w : Word) :
    otaStateStore size slots w = flashStateStore size slots (recordBuild w) .kept := by
  have herase : [FlashOp.erase, .write 0 (recordBuild w).1, .write 4 (recordBuild w).2].foldl
      FlashOp.apply slots = eraseWrite slots (recordBuild w) .kept :=
    foldl_write (erase slots) (zero_mod 8) (recordBuild w)
  unfold otaStateStore storeOps flashStateStore
  split
  · rfl
  cases hscan : stateScan size slots ⟨0, none⟩ with
  | none => rfl
  | some scan =>
    dsimp only
    split
    · exact herase
    cases slots[scan.used / 8]? with
    | none => rfl
    | some probe =>
      dsimp only
      split
      · exact herase
      · exact foldl_write slots (stateScan_used hscan rfl) (recordBuild w)

theorem erase_eq (slots : List Record) : erase slots = List.replicate slots.length blank :=
  map_const' ..

theorem Filled.append (h : Filled size slots recs) (hword : size < 2 ^ 32)
    (hroom : recs.length < size / 8) (w : Word) :
    ∃ ops, storeOps size slots (recordBuild w) = some ops ∧ OnErased slots ops ∧
      ops.count .erase = 0 ∧ Filled size (otaStateStore size slots w) (recs ++ [recordBuild w]) := by
  have he := write_blank recs (List.replicate (size / 8 - recs.length - 1) blank) (recordBuild w)
  rw [← h.split hroom] at he
  have hget : slots[8 * recs.length / 8]? = some blank := by
    rw [h.split hroom, Nat.mul_div_cancel_left _ (by decide),
      List.getElem?_append_right (le_refl _), Nat.sub_self]
    rfl
  have hops : storeOps size slots (recordBuild w) = some
      [.write (8 * recs.length) (recordBuild w).1, .write (8 * recs.length + 4) (recordBuild w).2] := by
    unfold storeOps
    rw [if_neg (by omega), h.scan hword hroom]
    dsimp only
    rw [mod_eq_of_lt (by omega), if_neg (by omega), hget]
    dsimp only
    rw [if_neg (not_not_intro rfl)]
  refine ⟨_, hops, he, rfl, ?_, ?_,
    forall_mem_append.mpr ⟨h.valid, forall_mem_singleton.mpr (recordValid_build w)⟩⟩
  · unfold otaStateStore
    rw [hops, getD_some, foldl_write slots (mul_mod_right _ _), h.split hroom,
      writeRecord_eq, length_append, length_singleton, append_assoc]
    rfl
  · rw [length_append, length_singleton]
    omega

theorem Filled.restart (h : Filled size slots recs) (h8 : 8 ≤ size) (hsize : size < 2 ^ 32 - 8)
    (hfull : recs.length = size / 8) (w : Word) :
    ∃ ops, storeOps size slots (recordBuild w) = some ops ∧ OnErased slots ops ∧
      ops.count .erase = 1 ∧ Filled size (otaStateStore size slots w) [recordBuild w] := by
  have hlen : slots.length = size / 8 := by
    rw [h.eq, length_append, length_replicate]
    omega
  obtain ⟨n, hn⟩ : ∃ n, size / 8 = n + 1 := ⟨size / 8 - 1, by omega⟩
  have her : FlashOp.erase.apply slots = [] ++ blank :: List.replicate n blank := by
    unfold FlashOp.apply
    rw [erase_eq, hlen, hn]
    rfl
  have hw := writeRecord_eq [] (List.replicate n blank) (recordBuild w) .kept
  have hops : storeOps size slots (recordBuild w) =
      some [.erase, .write 0 (recordBuild w).1, .write 4 (recordBuild w).2] := by
    unfold storeOps
    rw [if_neg (by omega), h.scan_full (by omega) hfull, if_pos hsize]
    dsimp only
    rw [mod_eq_of_lt (by omega), if_pos (by omega)]
  refine ⟨_, hops, ?_, rfl, ?_, ?_, fun r hr => ?_⟩
  · unfold OnErased
    rw [her]
    exact write_blank [] (List.replicate n blank) (recordBuild w)
  · unfold otaStateStore
    rw [hops, getD_some, foldl_cons, her]
    refine (foldl_write _ (zero_mod 8) (recordBuild w)).trans (hw.trans ?_)
    rw [hn]
    rfl
  · rw [length_singleton]
    omega
  · rw [mem_singleton.mp hr]
    exact recordValid_build w

theorem filled_nil (size : Nat) : Filled size (List.replicate (size / 8) blank) [] :=
  ⟨rfl, zero_le _, fun _ h => absurd h not_mem_nil⟩

theorem storeAll_concat (size : Nat) (ws : List Word) (w : Word) :
    storeAll size (ws ++ [w]) = otaStateStore size (storeAll size ws) w := by
  unfold storeAll
  rw [foldl_append]
  rfl

theorem Filled.load (h : Filled size slots (recs ++ [recordBuild w])) (hword : size < 2 ^ 32)
    (hsize : size < 2 ^ 32 - 8) : otaStateLoad size slots = some (Word.withMagic w) := by
  have hlast : (recs ++ [recordBuild w]).getLast? = some (recordBuild w) := List.getLast?_concat
  have hscan : stateScan size slots ⟨0, none⟩ =
      some ⟨8 * (recs ++ [recordBuild w]).length, some (recordBuild w)⟩ := by
    rw [← hlast]
    by_cases hroom : (recs ++ [recordBuild w]).length < size / 8
    · exact h.scan hword hroom
    · exact (h.scan_full hword (h.le.antisymm (not_lt.mp hroom))).trans (if_pos hsize)
  unfold otaStateLoad flashStateLoad
  rw [hscan]
  exact if_pos (recordValid_build w)

end

/-! ## Runs -/

section

variable {size : Nat} {slots recs : List Record}

/-- One store, on a sector with room or a full one. -/
theorem Filled.store (h : Filled size slots recs) (h8 : 8 ≤ size)
    (hsize : size < 2 ^ 32 - 8) (w : Word) :
    ∃ ops front, storeOps size slots (recordBuild w) = some ops ∧ OnErased slots ops ∧
      Filled size (otaStateStore size slots w) (front ++ [recordBuild w]) := by
  by_cases hroom : recs.length < size / 8
  · obtain ⟨ops, hops, he, -, hf⟩ := h.append (by omega) hroom w
    exact ⟨ops, recs, hops, he, hf⟩
  · obtain ⟨ops, hops, he, -, hf⟩ := h.restart h8 hsize
      (h.le.antisymm (not_lt.mp hroom)) w
    exact ⟨ops, [], hops, he, hf⟩

theorem storeAll_filled (h8 : 8 ≤ size) (hsize : size < 2 ^ 32 - 8) (ws : List Word) :
    ∃ recs, Filled size (storeAll size ws) recs := by
  induction ws using List.reverseRecOn with
  | nil => exact ⟨[], filled_nil size⟩
  | append_singleton ws w ih =>
    obtain ⟨recs, h⟩ := ih
    obtain ⟨_, front, -, -, hf⟩ := h.store h8 hsize w
    rw [storeAll_concat]
    exact ⟨_, hf⟩

theorem wear_cons {slots : List Record} {w : Word} {ops : List FlashOp}
    (h : storeOps size slots (recordBuild w) = some ops) (ws : List Word) :
    wear size slots (w :: ws) = ops.count .erase + wear size (otaStateStore size slots w) ws := by
  rw [wear, h, getD_some]

theorem Filled.wear_room (h : Filled size slots recs) (hword : size < 2 ^ 32) (ws : List Word)
    (hroom : recs.length + ws.length ≤ size / 8) : Journal.wear size slots ws = 0 := by
  induction ws generalizing slots recs with
  | nil => rfl
  | cons w ws ih =>
    rw [length_cons] at hroom
    obtain ⟨ops, hops, -, hc, hf⟩ := h.append hword (by omega) w
    rw [wear_cons hops, hc, zero_add]
    refine ih hf ?_
    rw [length_append, length_singleton]
    omega

/-- Behind an erase there is room for all but one of a sector's records. -/
theorem Filled.wear_le (h : Filled size slots recs) (h8 : 8 ≤ size) (hsize : size < 2 ^ 32 - 8)
    (ws : List Word) (hws : ws.length ≤ size / 8) : Journal.wear size slots ws ≤ 1 := by
  induction ws generalizing slots recs with
  | nil => exact zero_le _
  | cons w ws ih =>
    rw [length_cons] at hws
    by_cases hroom : recs.length < size / 8
    · obtain ⟨ops, hops, -, hc, hf⟩ := h.append (by omega) hroom w
      rw [wear_cons hops, hc, zero_add]
      exact ih hf (by omega)
    · obtain ⟨ops, hops, -, hc, hf⟩ := h.restart h8 hsize
        (h.le.antisymm (not_lt.mp hroom)) w
      rw [wear_cons hops, hc, hf.wear_room (by omega) ws (by rw [length_singleton]; omega)]

/-- As many stores as the sector has records fill it. -/
theorem storeAll_full (hword : size < 2 ^ 32) (n : Nat) (hn : n ≤ size / 8) :
    ∃ recs, Filled size (storeAll size (List.replicate n 0)) recs ∧ recs.length = n := by
  induction n with
  | zero => exact ⟨[], filled_nil size, rfl⟩
  | succ n ih =>
    obtain ⟨recs, h, hlen⟩ := ih (by omega)
    obtain ⟨_, -, -, -, hf⟩ := h.append hword (by omega) 0
    rw [replicate_succ', storeAll_concat]
    refine ⟨_, hf, ?_⟩
    rw [length_append, hlen]
    rfl

end

/-- On a sector this large the scan of a full log fails, and so does every store behind it. -/
theorem Sector.not_isRegister (x : Sector) (hsize : ¬ x.size < 2 ^ 32 - 8) : ¬ IsRegister x.size := by
  intro h
  obtain ⟨recs, hf, hlen⟩ := storeAll_full x.word (x.size / 8) (le_refl _)
  have hs := h.stores (List.replicate (x.size / 8) 0) 0
  unfold storeOps at hs
  rw [if_neg (not_lt.mpr x.record), hf.scan_full x.word hlen, if_neg hsize] at hs
  cases hs

theorem Sector.isRegister_iff (x : Sector) : IsRegister x.size ↔ x.size < 2 ^ 32 - 8 := by
  constructor
  · intro h
    by_contra hsize
    exact x.not_isRegister hsize h
  · intro hsize
    refine ⟨fun ws w => ?_, fun ws w => ?_, fun ws w ops ho => ?_, fun ws next hn => ?_⟩
    all_goals obtain ⟨recs, hf⟩ := storeAll_filled x.record hsize ws
    · obtain ⟨ops, _, hops, -, -⟩ := hf.store x.record hsize w
      rw [hops]
      rfl
    · obtain ⟨_, front, -, -, hl⟩ := hf.store x.record hsize w
      rw [storeAll_concat]
      exact hl.load x.word hsize
    · obtain ⟨ops', _, hops, he, -⟩ := hf.store x.record hsize w
      rw [hops] at ho
      cases ho
      exact he
    · exact hf.wear_le x.record hsize next hn

/-- A sector of `2 ^ 32 - 8` bytes is no register. -/
theorem register_fails_wrapped : ¬ ∀ x : Sector, IsRegister x.size := by
  intro h
  exact Sector.not_isRegister ⟨2 ^ 32 - 8, by decide, by decide⟩ (lt_irrefl _) (h _)

end MiniTree.Ota.Journal
