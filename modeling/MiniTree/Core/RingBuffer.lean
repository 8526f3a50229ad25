import Mathlib.Data.List.Basic
import Mathlib.Data.Nat.ModEq

/-!
# Ring buffers over a flat memory

Memory is a function from addresses to cells. `window mem cap start n` are the `n` cells
a ring of capacity `cap` holds from the free-running index `start` on; `ringWrite` and
`ringRead` are the two-part copies that split at the physical end.

**Results.** `ringRead_eq_window`: a two-part read returns the window.
`window_ringWrite`: a two-part write behind a window appends to it.
`ringWrite_append`: writing in pieces is writing at once.
-/

namespace MiniTree.Core

open List Nat

variable {α : Type*}

section
variable (mem : Nat → α)

/-- Copy `src` to the addresses from `dst` on. -/
def copyTo (dst : Nat) (src : List α) : Nat → α :=
  fun a => if dst ≤ a then src.getD (a - dst) (mem a) else mem a

/-- The `n` cells from address `src` on. -/
def copyFrom (src n : Nat) : List α :=
  (List.range n).map fun i => mem (src + i)

/-- The `n` cells of a ring of capacity `cap` from index `start` on. -/
def window (cap start n : Nat) : List α :=
  (List.range n).map fun i => mem ((start + i) % cap)

/-- Write `src` at position `idx` of a ring, the part that does not fit before the
physical end at its beginning. -/
def ringWrite (cap idx : Nat) (src : List α) : Nat → α :=
  if src.length ≤ cap - idx then copyTo mem idx src
  else copyTo (copyTo mem idx (src.take (cap - idx))) 0 (src.drop (cap - idx))

/-- Read `n` cells at position `idx` of a ring. -/
def ringRead (cap idx n : Nat) : List α :=
  if n ≤ cap - idx then copyFrom mem idx n
  else copyFrom mem idx (cap - idx) ++ copyFrom mem 0 (n - (cap - idx))

/-! ## Copies -/

@[simp] theorem copyFrom_length (src n : Nat) : (copyFrom mem src n).length = n := by
  simp [copyFrom]

@[simp] theorem window_length (cap start n : Nat) :
    (window mem cap start n).length = n := by simp [window]

@[simp] theorem copyTo_nil (dst : Nat) : copyTo mem dst [] = mem := by
  funext a
  simp [copyTo]

end

variable {mem : Nat → α} {dst a i cap start start' n m idx : Nat} {src : List α}

theorem copyTo_of_lt (h : a < dst) : copyTo mem dst src a = mem a := by
  simp [copyTo, not_le.mpr h]

theorem copyTo_of_ge (h : dst + src.length ≤ a) : copyTo mem dst src a = mem a := by
  have hlen : src.length ≤ a - dst := by omega
  simp [copyTo, List.getElem?_eq_none hlen]

theorem copyTo_add (h : i < src.length) : copyTo mem dst src (dst + i) = src[i] := by
  simp [copyTo, h]

section
variable (mem : Nat → α)

theorem copyFrom_add (src n m : Nat) :
    copyFrom mem src (n + m) = copyFrom mem src n ++ copyFrom mem (src + n) m := by
  simp only [copyFrom, range_add, map_append, map_map, add_assoc]
  rfl

/-- The cells up to `last` are the first `n` of them and the others. -/
theorem copyFrom_split {src last n : Nat} (h : n ≤ last - src) :
    copyFrom mem src (last - src) = copyFrom mem src n ++ copyFrom mem (src + n) (last - (src + n)) := by
  rw [← copyFrom_add, Nat.sub_add_eq, Nat.add_sub_cancel' h]

/-- What is copied behind the cells from `start` on. -/
theorem copyFrom_copyTo (src : List α) (h : start ≤ dst) :
    copyFrom (copyTo mem dst src) start (dst + src.length - start) =
      copyFrom mem start (dst - start) ++ src := by
  rw [Nat.sub_add_comm h, copyFrom_add, Nat.add_sub_cancel' h]
  congr 1
  · exact map_congr_left fun i hi => copyTo_of_lt (by have := mem_range.mp hi; omega)
  · refine ext_getElem (copyFrom_length ..) fun i _ hi => ?_
    simpa [copyFrom] using copyTo_add hi

/-! ## Windows -/

theorem window_add (cap start n m : Nat) :
    window mem cap start (n + m) = window mem cap start n ++ window mem cap (start + n) m := by
  simp only [window, range_add, map_append, map_map, add_assoc]
  rfl

end

theorem window_congr {mem' : Nat → α}
    (h : ∀ i < n, mem ((start + i) % cap) = mem' ((start' + i) % cap)) :
    window mem cap start n = window mem' cap start' n := by
  apply map_congr_left
  intro i hi
  exact h i (mem_range.mp hi)

/-- Only the residue of the start index counts. -/
theorem window_start (h : start ≡ start' [MOD cap]) :
    window mem cap start n = window mem cap start' n :=
  window_congr fun i _ => congrArg mem (h.add_right i)

section
variable (mem : Nat → α)

theorem window_take (cap start : Nat) (h : m ≤ n) :
    (window mem cap start n).take m = window mem cap start m := by
  obtain ⟨d, rfl⟩ := Nat.exists_eq_add_of_le h
  rw [window_add, take_left' (window_length ..)]

theorem window_drop (cap start : Nat) (h : m ≤ n) :
    (window mem cap start n).drop m = window mem cap (start + m) (n - m) := by
  obtain ⟨d, rfl⟩ := Nat.exists_eq_add_of_le h
  rw [window_add, drop_left' (window_length ..), Nat.add_sub_cancel_left]

/-- A stretch that ends before the physical end is read as it lies. -/
theorem window_eq_copyFrom (h : idx + n ≤ cap) : window mem cap idx n = copyFrom mem idx n := by
  apply map_congr_left
  intro i hi
  have hlt : idx + i < cap := lt_of_lt_of_le (Nat.add_lt_add_left (mem_range.mp hi) _) h
  rw [mod_eq_of_lt hlt]

theorem ringRead_eq_window (hidx : idx < cap) (hn : n ≤ cap) :
    ringRead mem cap idx n = window mem cap idx n := by
  unfold ringRead
  split
  · rw [window_eq_copyFrom mem (by omega)]
  -- the window splits where the ring does: the second half starts at address 0
  rename_i hsplit
  obtain ⟨m, rfl⟩ : ∃ m, n = (cap - idx) + m := ⟨n - (cap - idx), by omega⟩
  have hend : idx + (cap - idx) = cap := by omega
  rw [window_add, hend, window_eq_copyFrom mem (by omega),
    window_start (show cap ≡ 0 [MOD cap] by simp [Nat.ModEq]), Nat.add_sub_cancel_left,
    window_eq_copyFrom mem (by omega)]

end

/-! ## Writing -/

/-- Two indices less than a whole turn apart lie at different positions. -/
theorem mod_ne_of_lt {j : Nat} (hij : i < j) (hj : j < i + cap) :
    (start + i) % cap ≠ (start + j) % cap := by
  intro he
  have hd : cap ∣ j - i := by
    have := (modEq_iff_dvd' (by omega)).mp (show start + i ≡ start + j [MOD cap] from he)
    rwa [Nat.add_sub_add_left] at this
  have := le_of_dvd (by omega) hd
  omega

theorem ringWrite_on (hidx : idx < cap) (hlen : src.length ≤ cap) (hi : i < src.length) :
    ringWrite mem cap idx src ((idx + i) % cap) = src[i] := by
  unfold ringWrite
  split
  · rw [mod_eq_of_lt (by omega), copyTo_add hi]
  by_cases hlt : i < cap - idx
  · -- before the physical end: the second copy stays below
    rw [mod_eq_of_lt (by omega), copyTo_of_ge (by rw [length_drop]; omega),
      copyTo_add (by rw [length_take]; omega), getElem_take]
  have hmod : (idx + i) % cap = 0 + (i - (cap - idx)) := by
    rw [mod_eq_sub_mod (by omega), mod_eq_of_lt (by omega)]
    omega
  rw [hmod, copyTo_add (by rw [length_drop]; omega), getElem_drop]
  congr 1
  omega

theorem ringWrite_off (hidx : idx < cap) (hlen : src.length ≤ cap)
    (ha : ∀ i < src.length, a ≠ (idx + i) % cap) : ringWrite mem cap idx src a = mem a := by
  unfold ringWrite
  have hplain : ∀ i < src.length, idx + i < cap → a ≠ idx + i := fun i hi hlt =>
    mod_eq_of_lt hlt ▸ ha i hi
  split
  · by_cases hlt : a < idx
    · rw [copyTo_of_lt hlt]
    · rw [copyTo_of_ge]
      by_contra hge
      exact hplain (a - idx) (by omega) (by omega) (by omega)
  have hhigh : src.length - (cap - idx) ≤ a := by
    by_contra hge
    refine ha (a + (cap - idx)) (by omega) ?_
    rw [show idx + (a + (cap - idx)) = a + cap by omega, add_mod_right, mod_eq_of_lt (by omega)]
  rw [copyTo_of_ge (by rw [length_drop]; omega)]
  by_cases hlt : a < idx
  · rw [copyTo_of_lt hlt]
  rw [copyTo_of_ge]
  rw [length_take]
  by_contra hge
  exact hplain (a - idx) (by omega) (by omega) (by omega)

section Window

theorem window_ringWrite_self (hcap : 0 < cap) (hlen : src.length ≤ cap) :
    window (ringWrite mem cap (start % cap) src) cap start src.length = src := by
  apply ext_getElem (window_length ..)
  intro i _ hi
  simp only [window, getElem_map, getElem_range]
  rw [← mod_add_mod, ringWrite_on (mod_lt _ hcap) hlen hi]

theorem window_ringWrite_before (hcap : 0 < cap) (hlen : n + src.length ≤ cap) :
    window (ringWrite mem cap ((start + n) % cap) src) cap start n = window mem cap start n := by
  apply window_congr
  intro i hi
  apply ringWrite_off (mod_lt _ hcap) (by omega)
  intro j hj
  rw [mod_add_mod, add_assoc]
  exact mod_ne_of_lt (by omega) (by omega)

theorem window_ringWrite (hcap : 0 < cap) (hlen : n + src.length ≤ cap) :
    window (ringWrite mem cap ((start + n) % cap) src) cap start (n + src.length) =
      window mem cap start n ++ src := by
  rw [window_add, window_ringWrite_before hcap hlen, window_ringWrite_self hcap (by omega)]

theorem ringWrite_append {src' : List α} (hcap : 0 < cap) (hlen : src.length + src'.length ≤ cap) :
    ringWrite (ringWrite mem cap (start % cap) src) cap ((start + src.length) % cap) src' =
      ringWrite mem cap (start % cap) (src ++ src') := by
  have hs : start % cap < cap := mod_lt _ hcap
  have hs' : (start + src.length) % cap < cap := mod_lt _ hcap
  have hall : (src ++ src').length ≤ cap := by simpa using hlen
  have hpos : ∀ i, ((start + src.length) % cap + i) % cap = (start + (src.length + i)) % cap := by
    intro i
    rw [mod_add_mod, add_assoc]
  funext a
  by_cases hin' : ∃ i < src'.length, a = (start + (src.length + i)) % cap
  · obtain ⟨i, hi, rfl⟩ := hin'
    rw [← hpos, ringWrite_on hs' (by omega) hi, hpos, ← mod_add_mod,
      ringWrite_on hs hall (by simp; omega), getElem_append_right (by omega)]
    simp
  have hoff : ringWrite (ringWrite mem cap (start % cap) src) cap ((start + src.length) % cap) src' a =
      ringWrite mem cap (start % cap) src a :=
    ringWrite_off hs' (by omega) fun i hi he => hin' ⟨i, hi, he.trans (hpos i)⟩
  rw [hoff]
  by_cases hin : ∃ i < src.length, a = (start + i) % cap
  · obtain ⟨i, hi, rfl⟩ := hin
    rw [← mod_add_mod, ringWrite_on hs (by omega) hi,
      ringWrite_on hs hall (by simp; omega), getElem_append_left hi]
  rw [ringWrite_off hs (by omega) fun i hi he => hin ⟨i, hi, he.trans (mod_add_mod ..)⟩,
    ringWrite_off hs hall]
  intro i hi he
  rw [mod_add_mod] at he
  by_cases hlt : i < src.length
  · exact hin ⟨i, hlt, he⟩
  · refine hin' ⟨i - src.length, by simp at hi; omega, ?_⟩
    rwa [add_sub_of_le (by omega)]

end Window

end MiniTree.Core
