import MiniTree.Dtc.PropTable
import Mathlib.Data.List.FinRange
import Mathlib.Algebra.GroupWithZero.Nat
import Mathlib.Algebra.Order.Ring.Int

/-!
# Names, register and relation tables in the generated code (`tools/dtc_lite/generator.py`)

**Results.** `identifiers_unique_iff`: the enumerators and arrays of devices have different names
exactly if the names stay different when rewritten and no array is named like an enumerator.
`reg_table_faithful_iff`: when the pointers of a register table are inside its data and the words
that they cover are the `reg` list; the counts are of `uint8_t`. `relation_encoded_iff`: when the
lookup function of a relation table gives the list of each device.
-/

namespace MiniTree.Dtc

open List Nat

/-! ## Identifiers -/

inductive ArrayKind where
  | props | deps | regData | regs | irqs
  deriving DecidableEq

def ArrayKind.suffix : ArrayKind → List Char
  | props => ['_', 'p', 'r', 'o', 'p', 's']
  | deps => ['_', 'd', 'e', 'p', 's']
  | regData => ['_', 'R', 'E', 'G', '_', 'D', 'A', 'T', 'A']
  | regs => ['_', 'R', 'E', 'G', 'S']
  | irqs => ['_', 'I', 'R', 'Q', 'S']

/-- A device: the names on its path, its own last, and the arrays that it has. -/
structure EmittedDevice where
  path : List (List Char)
  arrays : List ArrayKind
  once : arrays.Nodup

def EmittedDevice.name (d : EmittedDevice) : List Char := d.path.getLast?.getD []

/-- mirrors generator.py:57-59 -/
def cSafeName (name : List Char) : List Char :=
  name.map fun c => if c ∈ ['@', '-', '.', '/'] then '_' else c

/-- mirrors generator.py:53-55 -/
def snakeName (name : List Char) : List Char := (cSafeName name).map Char.toUpper

def dev : List Char := ['D', 'E', 'V', '_']

def enumerator (name : List Char) : List Char := dev ++ 'I' :: 'D' :: '_' :: snakeName name

def arraySymbol (name : List Char) (k : ArrayKind) : List Char :=
  dev ++ (cSafeName name ++ k.suffix)

/-- What is declared for the devices.
mirrors generator.py:84-90, 168, 194, 228, 244, 262 -/
def identifiers (devs : List EmittedDevice) : List (List Char) :=
  enumerator ['c', 'o', 'u', 'n', 't'] :: devs.map (fun d => enumerator d.name) ++
    devs.flatMap fun d => d.arrays.map (arraySymbol d.name)

/-- Devices at different paths have different identifiers. -/
def Unique (devs : List EmittedDevice) : Prop :=
  (devs.map (·.path)).Nodup → (identifiers devs).Nodup

/-- The names stay different where `@`, `-`, `.`, `/` and `_` are one character and letters of either
size are, none becomes `COUNT`, and no enumerator is an array behind a name that starts with `ID_`. -/
structure Separate (devs : List EmittedDevice) : Prop where
  names : (snakeName ['c', 'o', 'u', 'n', 't'] :: devs.map fun d => snakeName d.name).Nodup
  arrays : ∀ d ∈ devs, ∀ k ∈ d.arrays, ∀ s ∈ snakeName ['c', 'o', 'u', 'n', 't'] ::
    devs.map (fun e => snakeName e.name), cSafeName d.name ++ k.suffix ≠ 'I' :: 'D' :: '_' :: s

theorem arraySymbol_inj {n n' : List Char} {k k' : ArrayKind}
    (h : arraySymbol n k = arraySymbol n' k') : snakeName n = snakeName n' ∧ k = k' := by
  have h' := congrArg reverse (append_cancel_left h)
  rw [reverse_append, reverse_append] at h'
  have hk : cSafeName n = cSafeName n' ∧ k = k' := by
    cases k <;> cases k' <;> simp [ArrayKind.suffix] at h' ⊢
    all_goals exact h'
  exact ⟨congrArg (map Char.toUpper) hk.1, hk.2⟩

/-- Arrays of one name belong to devices whose enumerators clash already. -/
theorem nodup_arrays {devs : List EmittedDevice} (h : (devs.map fun d => snakeName d.name).Nodup) :
    (devs.flatMap fun d => d.arrays.map (arraySymbol d.name)).Nodup := by
  refine nodup_flatMap.mpr ⟨fun d _ => d.once.map_on fun k _ k' _ he => (arraySymbol_inj he).2, ?_⟩
  refine (pairwise_map.mp h).imp fun hne x hx hy => ?_
  obtain ⟨k, -, rfl⟩ := mem_map.mp hx
  obtain ⟨k', -, hk⟩ := mem_map.mp hy
  exact hne (arraySymbol_inj hk).1.symm

def twoBuses (a b : List Char) : List EmittedDevice :=
  [⟨[['b', '0'], a], [.props], by decide⟩, ⟨[['b', '1'], b], [.props], by decide⟩]

/-- The nearest ancestor that has the property with a number decides, or 1. Ancestors are given by
their properties, the parent first.
mirrors compiler.py:1002-1019 (`_resolve_address_cells`), one of its two loops -/
def resolveCells (name : String) (ancestors : List (List DtsProperty)) : Int :=
  (ancestors.findSome? fun props => (getProp name props).bind (·.ints.head?)).getD 1

/-- How far a Python slice bound goes into a list of that length. -/
def sliceBound (k : Int) (length : Nat) : Nat := if 0 ≤ k then k.toNat else length - (-k).toNat

/-- A `struct device_reg`, its pointers as indices into the data; `none` is `NULL`. -/
structure RegEntry where
  addr : Nat
  addrCells : Nat
  size : Option Nat
  sizeCells : Nat
  deriving DecidableEq

/-- What a `uint8_t` keeps of a number. -/
def byte (v : Int) : Nat := (v % 256).toNat

/-- What a `uint32_t` keeps of a number. -/
def word (v : Int) : Int := v % 0x100000000

/-- The loop over the chunks, `fuel` bounding their number.
mirrors generator.py:210-221 -/
def regParts (ac sc : Int) : Nat → List Int → List (List Int × List Int)
  | fuel + 1, v :: ints =>
    if ac + sc ≤ 0 then [] else
    let chunk := (v :: ints).take (ac + sc).toNat
    (chunk.take (sliceBound ac chunk.length),
      if 0 < sc then chunk.drop (sliceBound ac chunk.length) else []) ::
      regParts ac sc fuel ((v :: ints).drop (ac + sc).toNat)
  | _, _ => []

/-- mirrors generator.py:223-230, the data array -/
def regData (parts : List (List Int × List Int)) : List Int :=
  (parts.flatMap fun p => p.1 ++ p.2).map word

/-- mirrors generator.py:232-242 -/
def regEntries (ac sc : Int) : Nat → List (List Int × List Int) → List RegEntry
  | _, [] => []
  | offset, p :: ps =>
    ⟨offset, byte ac, if sc = 0 then none else some (offset + p.1.length), byte sc⟩ ::
      regEntries ac sc (offset + (p.1.length + p.2.length)) ps

/-- The pointers cover their cells inside `length` words. -/
def RegEntry.Inside (length : Nat) (e : RegEntry) : Prop :=
  e.addr + e.addrCells ≤ length ∧ match e.size with
    | some o => o + e.sizeCells ≤ length
    | none => e.sizeCells = 0

def RegEntry.cells (data : List Int) (e : RegEntry) : List Int :=
  (data.drop e.addr).take e.addrCells ++
    match e.size with
    | some o => (data.drop o).take e.sizeCells
    | none => []

/-- The table of a device: every entry is inside its data, and a list of whole entries is given
back by those that are counted. The count is a `uint8_t`. -/
def RegFaithful (ancestors : List (List DtsProperty)) (ints : List Int) : Prop :=
  let ac := resolveCells "#address-cells" ancestors
  let sc := resolveCells "#size-cells" ancestors
  let parts := regParts ac sc ints.length ints
  let entries := regEntries ac sc 0 parts
  (∀ e ∈ entries, e.Inside (regData parts).length) ∧
  (0 < ac + sc → ac + sc ∣ ints.length →
    (entries.take (byte entries.length)).flatMap (·.cells (regData parts)) = ints)

/-- Whole entries of which every number fits its type, or a rest that has the cells it is stored
with: `rest` is what the last entry has of the list. -/
def RegFits (ac sc : Nat) (ints : List Int) : Prop :=
  if ac + sc ∣ ints.length then ac + sc = 0 ∨ ints = [] ∨
    ac < 256 ∧ sc < 256 ∧ ints.length / (ac + sc) < 256 ∧ ∀ v ∈ ints, word v = v
  else ac + sc = 0 ∨ (ac % 256 ≤ ints.length % (ac + sc) ∧
    (sc = 0 ∨ min ac (ints.length % (ac + sc)) + sc % 256 ≤ ints.length % (ac + sc)))

section
variable {ac sc fuel : Nat} {ints : List Int}

theorem regParts_cons (hk : 0 < ac + sc) (hi : ints ≠ []) : regParts ac sc (fuel + 1) ints =
    ((ints.take (ac + sc)).take ac, (ints.take (ac + sc)).drop ac) ::
      regParts ac sc fuel (ints.drop (ac + sc)) := by
  obtain ⟨v, ints, rfl⟩ := exists_cons_of_ne_nil hi
  have hsum : ((ac : Int) + sc).toNat = ac + sc := rfl
  have hbound : sliceBound ac = fun _ => ac := by
    funext
    simp [sliceBound]
  rw [regParts, if_neg (by omega), hsum, hbound]
  dsimp only
  split
  · rfl
  · have : sc = 0 := by omega
    rw [drop_eq_nil_of_le (show (take _ _).length ≤ _ by simp; omega)]

theorem flatMap_regParts (hk : 0 < ac + sc) (hf : ints.length ≤ fuel) :
    (regParts ac sc fuel ints).flatMap (fun p => p.1 ++ p.2) = ints := by
  induction fuel generalizing ints with
  | zero => rw [length_eq_zero_iff.mp (le_zero.mp hf)]; rfl
  | succ fuel ih =>
    by_cases hi : ints = []
    · subst hi; rfl
    have := length_pos_iff.mpr hi
    rw [regParts_cons hk hi, flatMap_cons, ih (by simp; omega), take_append_drop, take_append_drop]

theorem length_regEntries (off : Nat) (parts : List (List Int × List Int)) :
    (regEntries ac sc off parts).length = parts.length := by
  induction parts generalizing off with
  | nil => rfl
  | cons p ps ih => rw [regEntries, length_cons, length_cons, ih]

theorem byte_natCast (n : Nat) : byte n = n % 256 := by
  unfold byte
  omega

/-- Only the last entry can reach behind the data. -/
theorem inside_iff (hk : 0 < ac + sc) (hf : ints.length ≤ fuel) (off : Nat) :
    (∀ e ∈ regEntries ac sc off (regParts ac sc fuel ints), e.Inside (off + ints.length)) ↔
      ac + sc ∣ ints.length ∨ ac % 256 ≤ ints.length % (ac + sc) ∧
        (sc = 0 ∨ min ac (ints.length % (ac + sc)) + sc % 256 ≤ ints.length % (ac + sc)) := by
  induction fuel generalizing ints off with
  | zero =>
    rw [length_eq_zero_iff.mp (le_zero.mp hf)]
    simp [regParts, regEntries]
  | succ fuel ih =>
    by_cases hi : ints = []
    · subst hi
      simp [regParts, regEntries]
    have hpos := length_pos_iff.mpr hi
    have hp : ((ints.take (ac + sc)).take ac).length = min ac ints.length := by
      simp only [length_take]
      omega
    have hq : ((ints.take (ac + sc)).drop ac).length = min sc (ints.length - ac) := by
      simp only [length_take, length_drop]
      omega
    have hhead : RegEntry.Inside (off + ints.length) ⟨off, byte ac,
        if (sc : Int) = 0 then none else some (off + min ac ints.length), byte sc⟩ ↔
        ac % 256 ≤ ints.length ∧ (sc = 0 ∨ min ac ints.length + sc % 256 ≤ ints.length) := by
      rw [byte_natCast, byte_natCast]
      by_cases h0 : sc = 0 <;> simp [RegEntry.Inside, h0, Nat.add_assoc]
    rw [regParts_cons hk hi, regEntries, forall_mem_cons, hp, hq, hhead]
    rcases lt_or_ge ints.length (ac + sc) with hlt | hge
    · have hnd : ¬ ac + sc ∣ ints.length := fun h => by
        have := le_of_dvd hpos h
        omega
      rw [drop_eq_nil_of_le hlt.le, mod_eq_of_lt hlt, or_iff_right hnd]
      exact and_iff_left (by cases fuel <;> simp [regParts, regEntries])
    · have ht := @ih (ints.drop (ac + sc)) (by simp; omega) (off + (ac + sc))
      rw [length_drop, Nat.dvd_sub_iff_left hge (Nat.dvd_refl _), ← mod_eq_sub_mod hge,
        show off + (ac + sc) + (ints.length - (ac + sc)) = off + ints.length by omega] at ht
      rw [show off + (min ac ints.length + min sc (ints.length - ac)) = off + (ac + sc) by omega, ht]
      have := mod_le ac 256
      have := mod_le sc 256
      exact and_iff_right ⟨by omega, by omega⟩

/-- Entries of parts of `ac` and `sc` cells, behind `pre`. -/
theorem cells_regParts (ha : ac < 256) (hs : sc < 256) (hk : 0 < ac + sc) (hf : ints.length ≤ fuel)
    (hd : ac + sc ∣ ints.length) (pre : List Int) :
    (regEntries ac sc pre.length (regParts ac sc fuel ints)).flatMap
      (·.cells (pre ++ ints.map word)) = ints.map word := by
  induction fuel generalizing ints pre with
  | zero =>
    rw [length_eq_zero_iff.mp (le_zero.mp hf)]
    rfl
  | succ fuel ih =>
    by_cases hi : ints = []
    · subst hi
      rfl
    obtain ⟨x, y, rfl, hx⟩ : ∃ x y, ints = x ++ y ∧ x.length = ac + sc :=
      ⟨_, _, (take_append_drop (ac + sc) ints).symm,
        length_take_of_le (le_of_dvd (length_pos_iff.mpr hi) hd)⟩
    rw [length_append] at hf hd
    have ht := @ih y (by omega) ((Nat.dvd_add_right (hx ▸ Nat.dvd_refl _)).mp hd) (pre ++ x.map word)
    have hlen : ac + (x.length - ac) = x.length := by omega
    rw [regParts_cons hk hi, regEntries, flatMap_cons, take_left' hx, drop_left' hx, length_take,
      length_drop, min_eq_left (by omega), hlen, map_append]
    rw [length_append, length_map, append_assoc] at ht
    rw [ht]
    congr 1
    have hsplit : (x.map word ++ y.map word).take ac ++
        ((x.map word ++ y.map word).drop ac).take sc = x.map word := by
      rw [← take_add, take_left' (by rw [length_map, hx])]
    by_cases h0 : sc = 0
    · subst h0
      simpa [RegEntry.cells, byte_natCast, mod_eq_of_lt ha] using hsplit
    · simpa [RegEntry.cells, byte_natCast, mod_eq_of_lt ha, mod_eq_of_lt hs, h0] using hsplit

theorem length_regParts (hk : 0 < ac + sc) (hf : ints.length ≤ fuel) (hd : ac + sc ∣ ints.length) :
    (regParts ac sc fuel ints).length * (ac + sc) = ints.length := by
  induction fuel generalizing ints with
  | zero =>
    rw [length_eq_zero_iff.mp (le_zero.mp hf)]
    exact Nat.zero_mul _
  | succ fuel ih =>
    by_cases hi : ints = []
    · subst hi
      exact Nat.zero_mul _
    have hge := le_of_dvd (length_pos_iff.mpr hi) hd
    rw [regParts_cons hk hi, length_cons, succ_mul, ih (by simp; omega)
      (by simpa using (Nat.dvd_sub_iff_left hge (Nat.dvd_refl _)).mpr hd), length_drop,
      Nat.sub_add_cancel hge]

theorem length_cells_le (data : List Int) (parts : List (List Int × List Int)) (off m : Nat) :
    (((regEntries ac sc off parts).take m).flatMap (·.cells data)).length ≤
      min m parts.length * (ac % 256 + sc % 256) := by
  induction parts generalizing off m with
  | nil => simp [regEntries]
  | cons p ps ih =>
    cases m with
    | zero => simp
    | succ m =>
      have hhead : ∀ o size, (RegEntry.cells data ⟨o, byte ac, size, byte sc⟩).length ≤
          ac % 256 + sc % 256 := by
        rintro o (_ | _) <;> simp [RegEntry.cells, byte_natCast]; omega
      have := ih (off + (p.1.length + p.2.length)) m
      rw [regEntries, take_succ_cons, flatMap_cons, length_append, length_cons,
        succ_min_succ, succ_mul, Nat.add_comm]
      exact Nat.add_le_add this (hhead ..)

theorem eq_of_mul_le {n m k l : Nat} (hm : m ≤ n) (hl : l ≤ k) (hpos : 0 < n * k)
    (h : n * k ≤ m * l) : m = n ∧ l = k := by
  have hn := Nat.pos_of_mul_pos_right hpos
  have hk := Nat.pos_of_mul_pos_left hpos
  refine ⟨le_antisymm hm (Nat.le_of_mul_le_mul_right (h.trans ?_) hk),
    le_antisymm hl (Nat.le_of_mul_le_mul_left (h.trans ?_) hn)⟩
  · exact Nat.mul_le_mul_left m hl
  · exact Nat.mul_le_mul_right l hm

theorem reg_table_faithful_iff (ancestors : List (List DtsProperty)) (ints : List Int)
    (ha : resolveCells "#address-cells" ancestors = ac)
    (hs : resolveCells "#size-cells" ancestors = sc) :
    RegFaithful ancestors ints ↔ RegFits ac sc ints := by
  unfold RegFaithful RegFits
  rw [ha, hs]
  rcases Nat.eq_zero_or_pos (ac + sc) with h0 | hk
  · have hz : (ac : Int) + sc ≤ 0 := by omega
    cases ints <;> simp [regParts, hz, regEntries, h0]
  have hdata : regData (regParts ac sc ints.length ints) = ints.map word := by
    rw [regData, flatMap_regParts hk le_rfl]
  have hin := inside_iff hk (le_refl ints.length) 0
  rw [Nat.zero_add] at hin
  dsimp only
  rw [hdata, length_map, hin, length_regEntries, byte_natCast]
  split
  case isFalse hd =>
    have hd' : ¬ (ac : Int) + sc ∣ ints.length := by exact_mod_cast hd
    simp only [hd, hd', false_or, hk.ne', false_implies, implies_true, and_true]
  case isTrue hd =>
    have hd' : (ac : Int) + sc ∣ ints.length := by exact_mod_cast hd
    simp only [hd, true_or, true_and, hd', true_implies, hk.ne', false_or,
      show 0 < (ac : Int) + sc by omega]
    have hlen := length_regParts hk (le_refl ints.length) hd
    set n := (regParts ac sc ints.length ints).length
    have hn : ints.length / (ac + sc) = n := by rw [← hlen, Nat.mul_div_cancel _ hk]
    have hcells := fun hac hsc => cells_regParts hac hsc hk (le_refl ints.length) hd []
    rw [hn, or_iff_not_imp_left]
    constructor
    · intro h hi
      -- the entries counted have at most the cells that are stored, so nothing may be cut off
      have hle : n * (ac + sc) ≤ n % 256 * (ac % 256 + sc % 256) := by
        have := (congrArg length h).symm.trans_le (length_cells_le ..)
        rwa [hlen, ← min_eq_left (mod_le n 256)]
      have hac := mod_le ac 256
      have hsc := mod_le sc 256
      obtain ⟨hn256, hk256⟩ := eq_of_mul_le (mod_le n 256) (Nat.add_le_add hac hsc)
        (hlen ▸ length_pos_iff.mpr hi) hle
      have hac : ac < 256 := by omega
      have hsc : sc < 256 := by omega
      rw [hn256, take_of_length_le (by rw [length_regEntries])] at h
      exact ⟨hac, hsc, hn256 ▸ mod_lt _ (by omega),
        map_inj_left.mp ((hcells hac hsc).symm.trans (h.trans (map_id _).symm))⟩
    · intro h
      by_cases hi : ints = []
      · simp [hi, regParts, regEntries]
      obtain ⟨hac, hsc, hlt, hw⟩ := h hi
      rw [take_of_length_le (by rw [length_regEntries, mod_eq_of_lt hlt])]
      exact (hcells hac hsc).trans ((map_congr_left hw).trans (map_id _))

end

def i2cParent : List (List DtsProperty) :=
  [[⟨"#address-cells", [], [1], []⟩, ⟨"#size-cells", [], [0], []⟩]]

theorem reg_table_faithful_i2c : RegFaithful i2cParent [0x68, 0x69] :=
  (reg_table_faithful_iff _ _ (by decide +kernel) (by decide +kernel)).mpr
    (show RegFits 1 0 _ by simp [RegFits, word])

/-- Three numbers in entries of two: the last entry's size is behind the end of the data. -/
theorem reg_table_out_of_bounds : ¬ ∀ ancestors ints, RegFaithful ancestors ints := by
  intro h
  have hin := (h [] [0x40000000, 0x400, 0x50000000]).1 ⟨2, 1, some 3, 1⟩ (by decide +kernel)
  exact absurd hin.2 (by decide +kernel)

/-! ## Relation tables -/

section
variable {ι : Type} [DecidableEq ι] {n : Nat} (ids : Fin n → ι)
  (table : Fin n → Option (List (Fin n)))

/-- The value of an enumerator, those of the devices being in order. -/
def devId (x : ι) : Nat := (ofFn ids).idxOf x

/-- What stands at an index of an array with a line `[DEV_ID_…] = v,` for each device. -/
def designated (v : Fin n → Nat) (j : Nat) : Nat :=
  (((finRange n).reverse.find? fun i => devId ids (ids i) = j).map v).getD 0

def relatives (i : Fin n) : List (Fin n) := (table i).getD []

/-- `s_…_data`
mirrors generator.py:418-427 -/
def relationData : List Nat :=
  if (finRange n).any fun i => (table i).isSome then
    (finRange n).flatMap fun i => (relatives table i).map fun child => devId ids (ids child)
  else [0]

/-- mirrors generator.py:412-416 -/
def relationOffset (i : Fin n) : Nat :=
  (((finRange n).take i).map fun j => (relatives table j).length).sum

/-- The count, and the index of the first relative in the data. The arrays are of `uint8_t` and
`uint16_t`.
mirrors generator.py:398-450 (`_append_device_id_relation_table`), the function emitted -/
def relationGet (id : Int) : Nat × Option Nat :=
  if id < 0 ∨ n ≤ id then (0, none)
  else
    let count := designated ids (fun i => (relatives table i).length) id.toNat % 2 ^ 8
    let offset := designated ids (relationOffset table) id.toNat % 2 ^ 16
    (count, if count ≠ 0 then some offset else none)

/-- The function gives back each list with its length, and nothing for an empty one. -/
def RelationEncoded : Prop := ∀ i : Fin n,
  (relationGet ids table i).1 = (relatives table i).length ∧
  match (relationGet ids table i).2 with
  | none => relatives table i = []
  | some off => relatives table i ≠ [] ∧
    ((relationData ids table).drop off).take (relatives table i).length =
      (relatives table i).map (·.val)

variable {ids}

theorem devId_eq (hi : ids.Injective) (i : Fin n) : devId ids (ids i) = i := by
  have hn : (ofFn ids).Nodup := nodup_ofFn.mpr hi
  have := hn.idxOf_getElem i (by simp)
  simpa [devId] using this

theorem designated_eq (hi : ids.Injective) (v : Fin n → Nat) (i : Fin n) :
    designated ids v i = v i := by
  unfold designated
  cases hf : (finRange n).reverse.find? fun j => devId ids (ids j) = i with
  | none => simpa [devId_eq hi] using find?_eq_none.mp hf i (by simp)
  | some j =>
    have := find?_some hf
    rw [decide_eq_true_eq, devId_eq hi, Fin.val_inj] at this
    simp [this]

theorem relationData_slice (hi : ids.Injective) (i : Fin n) (hne : relatives table i ≠ []) :
    ((relationData ids table).drop (relationOffset table i)).take (relatives table i).length =
      (relatives table i).map (·.val) := by
  have hany : (finRange n).any (fun i => (table i).isSome) = true := by
    refine any_eq_true.mpr ⟨i, mem_finRange i, ?_⟩
    cases ht : table i <;> simp [relatives, ht] at hne ⊢
  have hsplit : finRange n = (finRange n).take i ++ i :: (finRange n).drop (i + 1) := by
    conv => lhs; rw [← take_append_drop i (finRange n), drop_eq_getElem_cons (by simp)]
    simp
  simp only [relationData, hany, if_true, devId_eq hi]
  rw [hsplit, flatMap_append, flatMap_cons, drop_left' (by simp [relationOffset, length_flatMap])]
  simp

theorem relationGet_eq (hi : ids.Injective) (i : Fin n) : relationGet ids table i =
    ((relatives table i).length % 2 ^ 8, if (relatives table i).length % 2 ^ 8 ≠ 0 then
      some (relationOffset table i % 2 ^ 16) else none) := by
  have hlt : ¬ ((i : Int) < 0 ∨ (n : Int) ≤ i) := by omega
  simp only [relationGet, if_neg hlt, Int.toNat_natCast, designated_eq hi]

theorem relation_encoded_iff (hi : ids.Injective) : RelationEncoded ids table ↔
    ∀ i, (relatives table i).length < 2 ^ 8 ∧ (relatives table i = [] ∨
      relationOffset table i < 2 ^ 16 ∨
      ((relationData ids table).drop (relationOffset table i % 2 ^ 16)).take
        (relatives table i).length = (relatives table i).map (·.val)) := by
  refine forall_congr' fun i => ?_
  have hcount : (relatives table i).length % 2 ^ 8 = (relatives table i).length ↔
      (relatives table i).length < 2 ^ 8 := mod_eq_iff_lt (by decide)
  rw [relationGet_eq table hi, hcount]
  refine and_congr_right fun hc => ?_
  rw [mod_eq_of_lt hc]
  by_cases hne : relatives table i = []
  · simp [hne]
  · simp only [hne, ne_eq, length_eq_zero_iff, not_false_eq_true, if_true, true_and, false_or]
    refine ⟨.inr, fun h => h.elim (fun ho => ?_) id⟩
    rw [mod_eq_of_lt ho]
    exact relationData_slice table hi i hne

end

/-- Device 0 has two dependents. -/
theorem relation_encoded_pair :
    RelationEncoded (n := 3) (fun i => i) (fun i => if i = 0 then some [1, 2] else none) :=
  (relation_encoded_iff _ fun _ _ h => h).mpr (by decide)

/-- A count of 256 is stored as 0. -/
theorem relation_count_wraps : ¬ RelationEncoded (n := 257) (fun i => i)
    (fun i => if i = 0 then some (finRange 257).tail else none) := by
  intro h
  have hcount := (h 0).1
  rw [relationGet_eq _ fun _ _ h => h, relatives, if_pos rfl, Option.getD_some, length_tail,
    length_finRange] at hcount
  exact absurd hcount (by decide)

end MiniTree.Dtc
