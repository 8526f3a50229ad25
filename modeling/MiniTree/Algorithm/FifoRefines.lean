import Mathlib.Data.UInt
import MiniTree.Core.Trace
import MiniTree.Algorithm.Fifo

/-!
# The SPSC ring buffers are bounded FIFO queues

`Rep h xs n`: the handle `h` holds `n` items, whose cells are `xs`. `fifoSpec` and `uniSpec`
are the abstract queues: the list of all items written and how many of them were read.

**Results.** `Rep.writeBlock_eq`, `Rep.readBlock_eq`: a block call appends as many items as
fit and removes as many as there are. `FifoSim.step`, `UniSim.step`: every call refines the
abstract one. `spsc_bounded`: so does every run, and a block call equals single calls.
-/

namespace MiniTree.Algorithm

open MiniTree.Core Option Nat
open List hiding beq_eq_decide
open UInt16 (toNat_inj le_iff_toNat_le lt_iff_toNat_lt toNat_and toNat_sub_of_le toNat_ofNat_of_lt' ofNat_toNat)

variable {β : Type*} {buf : Nat → β} {itemSize itemCount : UInt16}

structure Rep (h : Spsc β) (xs : List β) (n : Nat) : Prop where
  size : ∃ e < 16, h.size.toNat = 2 ^ e
  item : 0 < h.itemSize.toNat
  mask : h.mask = h.size - 1
  le : n ≤ h.size.toNat
  cells : xs.length = n * h.itemSize.toNat
  wPtr : h.wPtr = h.rPtr + .ofNat n
  mem : window h.buf h.capacity (h.rPtr.toNat * h.itemSize.toNat) xs.length = xs

/-! ## Initialisation -/

theorem powerOfTwo_of_and {n : UInt16} (h0 : n ≠ 0) (h : n &&& (n - 1) = 0) :
    ∃ e < 16, n.toNat = 2 ^ e := by
  have hpos : n.toNat ≠ 0 := fun hz => h0 (toNat_inj.mp hz)
  have hle : (1 : UInt16) ≤ n := by
    rw [le_iff_toNat_le]
    exact one_le_iff_ne_zero.mpr hpos
  have hand : n.toNat &&& (n.toNat - 1) = 0 := by
    have := congrArg UInt16.toNat h
    rwa [toNat_and, toNat_sub_of_le _ _ hle] at this
  obtain ⟨e, he⟩ := (and_sub_one_eq_zero_iff_isPowerOfTwo hpos).mp hand
  refine ⟨e, ?_, he⟩
  have : 2 ^ e < 2 ^ 16 := he ▸ n.toNat_lt
  exact (Nat.pow_lt_pow_iff_right (by decide)).mp this

theorem Rep.init {h : Spsc β} (hi : fifoUniInit buf itemSize itemCount = some h) : Rep h [] 0 := by
  obtain ⟨hok, ⟨⟩⟩ := ite_none_left_eq_some.mp hi
  simp only [not_or, not_not] at hok
  obtain ⟨hs, hc, hp⟩ := hok
  exact {
    size := powerOfTwo_of_and hc hp
    item := Nat.pos_of_ne_zero fun hz => hs (toNat_inj.mp hz)
    mask := rfl
    le := zero_le _
    cells := by simp
    wPtr := rfl
    mem := rfl }

/-! ## Indices -/

section Indices

variable {h : Spsc β} {xs : List β} {n : Nat}

section
variable (r : Rep h xs n) (ptr : UInt16)
include r

theorem Rep.size_pos : 0 < h.size.toNat := by
  obtain ⟨e, -, he⟩ := r.size
  exact he ▸ Nat.two_pow_pos e

theorem Rep.capacity_pos : 0 < h.capacity := Nat.mul_pos r.size_pos r.item

theorem Rep.count_eq : h.count = .ofNat n := by
  unfold Spsc.count
  rw [r.wPtr, UInt16.add_comm, UInt16.add_sub_cancel]

theorem Rep.toNat_ofNat : (UInt16.ofNat n).toNat = n :=
  toNat_ofNat_of_lt' (lt_of_le_of_lt r.le h.size.toNat_lt)

theorem Rep.count_toNat : h.count.toNat = n := by rw [r.count_eq, r.toNat_ofNat]

theorem Rep.free_toNat : (h.size - h.count).toNat = h.size.toNat - n := by
  rw [toNat_sub_of_le, r.count_toNat]
  rw [le_iff_toNat_le, r.count_toNat]
  exact r.le

theorem Rep.masked : (ptr &&& h.mask).toNat = ptr.toNat % h.size.toNat := by
  obtain ⟨e, -, hs⟩ := r.size
  have hone : (1 : UInt16) ≤ h.size := le_iff_toNat_le.mpr r.size_pos
  rw [r.mask, toNat_and, toNat_sub_of_le _ _ hone, hs]
  exact and_two_pow_sub_one_eq_mod ..

theorem Rep.offset : h.offset ptr = ptr.toNat * h.itemSize.toNat % h.capacity := by
  unfold Spsc.offset Spsc.capacity
  rw [r.masked, mul_mod_mul_right]

/-- A 16-bit wrap of an index is invisible: the capacity divides it. -/
theorem Rep.wrap (k : Nat) : (ptr + .ofNat k).toNat * h.itemSize.toNat ≡
      ptr.toNat * h.itemSize.toNat + k * h.itemSize.toNat [MOD h.capacity] := by
  obtain ⟨e, he, hs⟩ := r.size
  rw [← add_mul]
  apply Nat.ModEq.mul_right'
  rw [UInt16.toNat_add, UInt16.toNat_ofNat', hs]
  have hd : 2 ^ e ∣ 2 ^ 16 := pow_dvd_pow 2 he.le
  exact ((mod_modEq _ _).trans ((mod_modEq _ _).add_left _)).of_dvd hd

theorem Rep.offset_wPtr :
    h.offset h.wPtr = (h.rPtr.toNat * h.itemSize.toNat + xs.length) % h.capacity := by
  rw [r.offset, r.wPtr, r.cells]
  exact r.wrap _ _

theorem Rep.offset_lt : h.offset ptr < h.capacity := by
  rw [r.offset]
  exact mod_lt _ r.capacity_pos

end

end Indices

/-! ## Copies -/

section Copies

variable {h : Spsc β} {xs : List β} {n : Nat}

theorem Spsc.copyIn_eq (h : Spsc β) (ptr count : UInt16) (pData : List β)
    (hlen : count.toNat * h.itemSize.toNat ≤ pData.length) : h.copyIn ptr count pData =
      ringWrite h.buf h.capacity (h.offset ptr) (pData.take (count.toNat * h.itemSize.toNat)) := by
  unfold Spsc.copyIn ringWrite Spsc.spaceToEnd
  simp only [length_take, min_eq_left hlen]
  split
  · rfl
  · rw [take_take, min_eq_left (by omega), drop_take]

theorem Spsc.copyOut_eq (h : Spsc β) (ptr count : UInt16) : h.copyOut ptr count =
      ringRead h.buf h.capacity (h.offset ptr) (count.toNat * h.itemSize.toNat) :=
  rfl

section
variable (r : Rep h xs n) {k : Nat} {data : List β}
include r

/-- Only what is queued counts. -/
theorem Rep.keep (hbuf : window buf h.capacity (h.rPtr.toNat * h.itemSize.toNat) xs.length =
      window h.buf h.capacity (h.rPtr.toNat * h.itemSize.toNat) xs.length) :
    Rep { h with buf := buf } xs n :=
  { r with mem := hbuf.trans r.mem }

section
variable (hk : n + k ≤ h.size.toNat)
include hk

theorem Rep.room
    (hd : data.length = k * h.itemSize.toNat) : xs.length + data.length ≤ h.capacity := by
  rw [r.cells, hd, ← add_mul]
  exact mul_le_mul_right _ hk

/-- `k` items that lie at the write index are published by moving it. -/
theorem Rep.publish (hd : data.length = k * h.itemSize.toNat)
    (hw : window h.buf h.capacity (h.wPtr.toNat * h.itemSize.toNat) data.length = data) :
    Rep { h with wPtr := h.wPtr + .ofNat k } (xs ++ data) (n + k) where
  size := r.size
  item := r.item
  mask := r.mask
  le := hk
  cells := by rw [length_append, r.cells, hd, add_mul]
  wPtr := by rw [r.wPtr, UInt16.add_assoc, ← UInt16.ofNat_add]
  mem := by
    have hstart : h.rPtr.toNat * h.itemSize.toNat + xs.length ≡
        h.wPtr.toNat * h.itemSize.toNat [MOD h.capacity] := by
      rw [r.wPtr, r.cells]
      exact (r.wrap h.rPtr n).symm
    rw [length_append]
    refine (window_add ..).trans ?_
    exact congrArg₂ (· ++ ·) r.mem ((window_start hstart).trans hw)

theorem Rep.push
    (hd : data.length = k * h.itemSize.toNat) : Rep { h with
      buf := ringWrite h.buf h.capacity (h.offset h.wPtr) data
      wPtr := h.wPtr + .ofNat k } (xs ++ data) (n + k) := by
  have hroom := r.room hk hd
  have hkeep : Rep { h with buf := ringWrite h.buf h.capacity (h.offset h.wPtr) data } xs n := by
    apply r.keep
    rw [r.offset_wPtr]
    exact window_ringWrite_before r.capacity_pos hroom
  apply hkeep.publish hk hd
  rw [r.offset]
  exact window_ringWrite_self r.capacity_pos (le_of_add_left_le hroom)

end

theorem Rep.le_cells (hk : k ≤ n) : k * h.itemSize.toNat ≤ xs.length := by
  rw [r.cells]
  exact mul_le_mul_right _ hk

theorem Rep.pop (hk : k ≤ n) :
    Rep { h with rPtr := h.rPtr + .ofNat k } (xs.drop (k * h.itemSize.toNat)) (n - k) where
  size := r.size
  item := r.item
  mask := r.mask
  le := (sub_le ..).trans r.le
  cells := by rw [length_drop, r.cells, Nat.sub_mul]
  wPtr := by rw [r.wPtr, UInt16.add_assoc, ← UInt16.ofNat_add, add_sub_of_le hk]
  mem := by
    calc window h.buf h.capacity ((h.rPtr + .ofNat k).toNat * h.itemSize.toNat) _
        = window h.buf h.capacity _ (xs.length - k * h.itemSize.toNat) := by
          rw [length_drop, window_start (r.wrap h.rPtr k)]
      _ = (window h.buf h.capacity _ xs.length).drop (k * h.itemSize.toNat) :=
          (window_drop _ _ _ (r.le_cells hk)).symm
      _ = xs.drop (k * h.itemSize.toNat) := by rw [r.mem]

theorem Rep.front (hk : k ≤ n) :
    ringRead h.buf h.capacity (h.offset h.rPtr) (k * h.itemSize.toNat) =
      xs.take (k * h.itemSize.toNat) := by
  have hcap : k * h.itemSize.toNat ≤ h.capacity := mul_le_mul_right _ (hk.trans r.le)
  rw [ringRead_eq_window _ (r.offset_lt _) hcap, r.offset, window_start (mod_modEq ..),
    ← window_take _ _ _ (r.le_cells hk), r.mem]

end

end Copies

/-! ## Block and single calls -/

/-- `data`, which is `k` items, is written at the write index. -/
def Spsc.put (h : Spsc β) (data : List β) (k : Nat) : Spsc β :=
  { h with
    buf := ringWrite h.buf h.capacity (h.offset h.wPtr) data
    wPtr := h.wPtr + .ofNat k }

/-- `k` items are taken at the read index. -/
def Spsc.advance (h : Spsc β) (k : Nat) : Spsc β :=
  { h with rPtr := h.rPtr + .ofNat k }

section Calls

variable {h : Spsc β} {xs : List β} {n : Nat}

theorem Spsc.put_nil (h : Spsc β) : h.put [] 0 = h := by
  have hbuf : ringWrite h.buf h.capacity (h.offset h.wPtr) [] = h.buf := by simp [ringWrite]
  have hptr : h.wPtr + .ofNat 0 = h.wPtr := UInt16.add_zero _
  unfold Spsc.put
  rw [hbuf, hptr]

theorem Spsc.advance_zero (h : Spsc β) : h.advance 0 = h := by
  have hptr : h.rPtr + .ofNat 0 = h.rPtr := UInt16.add_zero _
  unfold Spsc.advance
  rw [hptr]

theorem Spsc.advance_advance (h : Spsc β) (i j : Nat) :
    (h.advance i).advance j = h.advance (i + j) := by
  simp only [Spsc.advance, UInt16.add_assoc, UInt16.ofNat_add]

section
variable (r : Rep h xs n) (count : UInt16)
include r

theorem Rep.put_put {i j : Nat} {a b : List β}
    (ha : a.length = i * h.itemSize.toNat) (hb : b.length = j * h.itemSize.toNat)
    (hij : i + j ≤ h.size.toNat) : (h.put a i).put b j = h.put (a ++ b) (i + j) := by
  have hroom : a.length + b.length ≤ h.capacity := by
    rw [ha, hb, ← add_mul]
    exact mul_le_mul_right _ hij
  have hoff : (h.put a i).offset (h.put a i).wPtr =
      (h.wPtr.toNat * h.itemSize.toNat + a.length) % h.capacity := by
    rw [ha]
    exact (r.offset _).trans (r.wrap ..)
  have hbuf : ringWrite (h.put a i).buf h.capacity ((h.put a i).offset (h.put a i).wPtr) b =
      ringWrite h.buf h.capacity (h.offset h.wPtr) (a ++ b) := by
    rw [hoff, r.offset]
    exact (congrArg (ringWrite · _ _ b) (by rw [← r.offset]; rfl)).trans
      (ringWrite_append r.capacity_pos hroom)
  unfold Spsc.put at hbuf ⊢
  simp only [Spsc.capacity, UInt16.ofNat_add, ← UInt16.add_assoc] at hbuf ⊢
  rw [hbuf]

/-- A block write puts as many items as fit. -/
theorem Rep.writeBlock_eq {data : List β} {count : UInt16}
    (hlen : data.length = count.toNat * h.itemSize.toNat) : h.writeBlock data count =
      (if count = 0 then .inval else if n = h.size.toNat then .full else .ok,
        .ofNat (min count.toNat (h.size.toNat - n)),
        h.put (data.take (min count.toNat (h.size.toNat - n) * h.itemSize.toNat))
          (min count.toNat (h.size.toNat - n))) := by
  unfold Spsc.writeBlock
  by_cases hc : count = 0
  · subst hc
    simp [Spsc.put_nil]
  have hfull : h.size - h.count = 0 ↔ n = h.size.toNat := by
    rw [← toNat_inj, r.free_toNat]
    have := r.le
    simp only [UInt16.toNat_zero]
    omega
  simp only [hc, hfull, if_false]
  split
  · rename_i hn
    simp [hn, Spsc.put_nil]
  -- the count is cut to the free space, so the data is long enough
  have hmin : (if h.size - h.count < count then h.size - h.count else count).toNat =
      min count.toNat (h.size.toNat - n) := by
    split
    · rename_i hlt
      rw [lt_iff_toNat_lt, r.free_toNat] at hlt
      rw [r.free_toNat, min_eq_right hlt.le]
    · rename_i hge
      rw [lt_iff_toNat_lt, r.free_toNat] at hge
      rw [Nat.min_eq_left (by omega)]
  have hcast : (if h.size - h.count < count then h.size - h.count else count) =
      .ofNat (min count.toNat (h.size.toNat - n)) := by rw [← hmin, ofNat_toNat]
  have hcopy : min count.toNat (h.size.toNat - n) * h.itemSize.toNat ≤ data.length := by
    rw [hlen]
    exact mul_le_mul_right _ (min_le_left ..)
  have hk : (UInt16.ofNat (min count.toNat (h.size.toNat - n))).toNat =
      min count.toNat (h.size.toNat - n) := by rw [← hcast, hmin]
  rw [hcast, h.copyIn_eq _ _ _ (by rwa [hk]), hk]
  rfl

/-- A block read takes as many items as there are. -/
theorem Rep.readBlock_eq : h.readBlock count =
      (if count = 0 then .inval else if n = 0 then .empty else .ok,
        xs.take (min count.toNat n * h.itemSize.toNat), h.advance (min count.toNat n)) := by
  unfold Spsc.readBlock
  by_cases hc : count = 0
  · subst hc
    simp [Spsc.advance_zero]
  have hempty : h.count = 0 ↔ n = 0 := by
    rw [← toNat_inj, r.count_toNat]
    rfl
  simp only [hc, hempty, if_false]
  split
  · rename_i hn
    simp [hn, Spsc.advance_zero]
  have hcast : (if h.count < count then h.count else count) = .ofNat (min count.toNat n) := by
    split
    · rename_i hlt
      rw [lt_iff_toNat_lt, r.count_toNat] at hlt
      rw [min_eq_right hlt.le, r.count_eq]
    · rename_i hge
      rw [lt_iff_toNat_lt, r.count_toNat] at hge
      rw [Nat.min_eq_left (by omega), ofNat_toNat]
  have hk : (UInt16.ofNat (min count.toNat n)).toNat = min count.toNat n :=
    toNat_ofNat_of_lt' (lt_of_le_of_lt (min_le_left ..) count.toNat_lt)
  rw [hcast, h.copyOut_eq, hk, r.front (min_le_right ..)]
  rfl

theorem Rep.empty_iff : h.rPtr = h.wPtr ↔ n = 0 := by
  constructor
  · intro he
    rw [← r.count_toNat, Spsc.count, he, UInt16.sub_self, UInt16.toNat_zero]
  · rintro rfl
    rw [r.wPtr]
    exact (UInt16.add_zero _).symm

theorem Rep.isEmpty_eq : h.isEmpty = decide (n = 0) := by
  simp only [Spsc.isEmpty, beq_eq_decide, r.empty_iff]

theorem Rep.full_iff : h.size ≤ h.count ↔ n = h.size.toNat := by
  rw [le_iff_toNat_le, r.count_toNat]
  have := r.le
  omega

theorem Rep.isFull_eq : h.isFull = decide (n = h.size.toNat) := by
  simp only [Spsc.isFull, r.full_iff]

theorem Rep.writeData_eq (hs : h.itemSize = 1) (d : β) :
    h.writeData d = if n = h.size.toNat then (.full, h) else (.ok, h.put [d] 1) := by
  have hoff : (h.wPtr &&& h.mask).toNat = h.offset h.wPtr := by simp [Spsc.offset, hs]
  have hcopy : copyTo h.buf (h.offset h.wPtr) [d] =
      ringWrite h.buf h.capacity (h.offset h.wPtr) [d] := by
    have := r.offset_lt h.wPtr
    rw [ringWrite, if_pos (by rw [length_singleton]; omega)]
  unfold Spsc.writeData
  simp only [r.full_iff, hoff, hcopy]
  rfl

theorem Rep.readData_eq (hs : h.itemSize = 1) :
    h.readData = (if n = 0 then .empty else .ok, xs.take 1, h.advance (min 1 n)) := by
  unfold Spsc.readData
  simp only [r.empty_iff]
  split
  · rename_i hn
    have hxs : xs = [] := eq_nil_of_length_eq_zero (by rw [r.cells, hn, Nat.zero_mul])
    simp [hn, hxs, Spsc.advance_zero]
  rename_i hn
  have hfront := r.front (k := 1) (by omega)
  rw [hs] at hfront
  have hoff : (h.rPtr &&& h.mask).toNat = h.offset h.rPtr := by simp [Spsc.offset, hs]
  have hlt := r.offset_lt h.rPtr
  have hread : ringRead h.buf h.capacity (h.offset h.rPtr) 1 = [h.buf (h.offset h.rPtr)] := by
    rw [ringRead, if_pos (by omega)]
    rfl
  rw [hoff, Nat.min_eq_left (by omega), ← hread]
  exact congrArg _ (congrArg₂ Prod.mk hfront rfl)

/-- A slot does not straddle the physical end. -/
theorem Rep.slot_fits (ptr : UInt16) : h.itemSize.toNat ≤ h.capacity - h.offset ptr := by
  have hlt : (ptr &&& h.mask).toNat + 1 ≤ h.size.toNat := by
    rw [r.masked]
    exact mod_lt _ r.size_pos
  have := mul_le_mul_right h.itemSize.toNat hlt
  rw [add_mul, one_mul] at this
  unfold Spsc.capacity Spsc.offset
  omega

theorem Rep.slot_front (hn : 1 ≤ n) :
    copyFrom h.buf (h.offset h.rPtr) h.itemSize.toNat = xs.take (1 * h.itemSize.toNat) := by
  rw [← r.front hn, ringRead, one_mul, if_pos (r.slot_fits _)]

end

section Fill

variable {data : List β} (r : Rep h xs n) (hd : data.length = h.itemSize.toNat)
include r hd

theorem Rep.copyTo_slot :
    copyTo h.buf (h.offset h.wPtr) data = ringWrite h.buf h.capacity (h.offset h.wPtr) data := by
  rw [ringWrite, if_pos (by rw [hd]; exact r.slot_fits _)]

/-- Filling the free slot at the write index changes nothing that is queued. -/
theorem Rep.fill (hn : n < h.size.toNat) :
    Rep { h with buf := copyTo h.buf (h.offset h.wPtr) data } xs n := by
  apply r.keep
  rw [r.copyTo_slot hd, r.offset_wPtr]
  exact window_ringWrite_before r.capacity_pos (r.room hn (by rw [hd, one_mul]))

/-- A filled slot is published by moving the write index. -/
theorem Rep.fill_commit (hn : n < h.size.toNat) :
    Rep (Spsc.writeCommit { h with buf := copyTo h.buf (h.offset h.wPtr) data }) (xs ++ data)
      (n + 1) := by
  rw [r.copyTo_slot hd]
  exact r.push hn (by rw [hd, Nat.one_mul])

end Fill

end Calls

/-! ## The abstract queue -/

/-- A queue by its history: all items written, and how many of them were read. -/
structure Stream (ι : Type*) where
  written : List ι
  taken : Nat

namespace Stream

variable {ι : Type*}

def empty : Stream ι := ⟨[], 0⟩

def queued (q : Stream ι) : List ι := q.written.drop q.taken

def push (q : Stream ι) (xs : List ι) : Stream ι :=
  { q with written := q.written ++ xs }

def pop (q : Stream ι) (n : Nat) : Stream ι :=
  { q with taken := q.taken + n }

@[simp] theorem queued_pop (q : Stream ι) (n : Nat) : (q.pop n).queued = q.queued.drop n := by
  simp [queued, pop, drop_drop]

section

variable {q : Stream ι} (hq : q.taken ≤ q.written.length)

include hq

theorem queued_push (xs : List ι) : (q.push xs).queued = q.queued ++ xs :=
  drop_append_of_le_length hq

theorem taken_push (xs : List ι) : (q.push xs).taken ≤ (q.push xs).written.length := by
  simp only [push, length_append]
  exact le_add_right_of_le hq

theorem taken_pop {n : Nat} (hn : n ≤ q.queued.length) : (q.pop n).taken ≤ (q.pop n).written.length := by
  simp only [queued, length_drop] at hn
  simp only [pop]
  omega

end

end Stream

/-- A bounded FIFO of capacity `cap`: a write accepts what fits, a read returns what is
there, in the order of writing. -/
def fifoSpec (cap : Nat) (q : Stream β) : FifoOp β → Out β × Stream β
  | .writeData d =>
    if q.queued.length = cap then (.code .full, q) else (.code .ok, q.push [d])
  | .writeBlock b =>
    let k := min b.val.length (cap - q.queued.length)
    (.wrote (if b.val = [] then .inval else if q.queued.length = cap then .full else .ok) k,
      q.push (b.val.take k))
  | .readData =>
    (.read (if q.queued = [] then .empty else .ok) (q.queued.take 1), q.pop (min 1 q.queued.length))
  | .readBlock n =>
    (.read (if n = 0 then .inval else if q.queued = [] then .empty else .ok)
      (q.queued.take n.toNat), q.pop (min n.toNat q.queued.length))
  | .getCount => (.count q.queued.length, q)
  | .isEmpty => (.flag q.queued.isEmpty, q)
  | .isFull => (.flag (q.queued.length = cap), q)

structure FifoSim (cap : Nat) (h : Spsc β) (q : Stream β) : Prop where
  size : h.size.toNat = cap
  item : h.itemSize = 1
  taken : q.taken ≤ q.written.length
  rep : Rep h q.queued q.queued.length

section Fifo

variable {cap : Nat} {h : Spsc β} {q : Stream β} {ι : Type*}

section
variable (r : FifoSim cap h q)
include r

theorem FifoSim.one : h.itemSize.toNat = 1 := by
  rw [r.item]
  rfl

theorem FifoSim.le : q.queued.length ≤ cap := r.size ▸ r.rep.le

theorem FifoSim.put (data : List β) (hk : q.queued.length + data.length ≤ cap) :
    FifoSim cap (h.put data data.length) (q.push data) where
  size := r.size
  item := r.item
  taken := Stream.taken_push r.taken _
  rep := by
    rw [Stream.queued_push r.taken, length_append]
    exact r.rep.push (by rwa [r.size]) (by rw [r.one, mul_one])

theorem FifoSim.advance {k : Nat} (hk : k ≤ q.queued.length) :
    FifoSim cap (h.advance k) (q.pop k) where
  size := r.size
  item := r.item
  taken := Stream.taken_pop r.taken hk
  rep := by
    have := r.rep.pop hk
    rwa [r.one, mul_one, ← length_drop, ← Stream.queued_pop] at this

end

theorem Block.len_toNat (b : Block ι) : b.len.toNat = b.val.length :=
  toNat_ofNat_of_lt' b.property

theorem Block.len_eq_zero (b : Block ι) : b.len = 0 ↔ b.val = [] := by
  rw [← toNat_inj, b.len_toNat]
  exact length_eq_zero_iff

theorem Block.count_toNat (b : Block ι) (n : Nat) :
    (UInt16.ofNat (min b.val.length n)).toNat = min b.val.length n :=
  toNat_ofNat_of_lt' (lt_of_le_of_lt (min_le_left ..) b.property)

theorem FifoSim.step (r : FifoSim cap h q) (o : FifoOp β) :
    (fifoStep h o).1 = (fifoSpec cap q o).1 ∧ FifoSim cap (fifoStep h o).2 (fifoSpec cap q o).2 := by
  have hle := r.le
  cases o with
  | writeData d =>
    simp only [fifoStep, fifoSpec, r.rep.writeData_eq r.item, r.size]
    split
    · exact ⟨rfl, r⟩
    · exact ⟨rfl, r.put [d] (by rw [length_singleton]; omega)⟩
  | writeBlock b =>
    have hlen : b.val.length = b.len.toNat * h.itemSize.toNat := by
      rw [r.one, mul_one, b.len_toNat]
    have hk : (b.val.take (min b.val.length (cap - q.queued.length))).length =
        min b.val.length (cap - q.queued.length) := by simp
    simp only [fifoStep, fifoSpec, r.rep.writeBlock_eq hlen, r.size, b.len_toNat, r.one, mul_one,
      b.len_eq_zero, b.count_toNat, true_and]
    have hput := r.put (b.val.take (min b.val.length (cap - q.queued.length)))
      (by rw [hk]; omega)
    rwa [hk] at hput
  | readData =>
    have hnil : q.queued.length = 0 ↔ q.queued = [] := length_eq_zero_iff
    simp only [fifoStep, fifoSpec, r.rep.readData_eq r.item, hnil, true_and]
    exact r.advance (min_le_right ..)
  | readBlock n =>
    have hnil : q.queued.length = 0 ↔ q.queued = [] := length_eq_zero_iff
    simp only [fifoStep, fifoSpec, r.rep.readBlock_eq, hnil, r.one, mul_one]
    exact ⟨by rw [← take_eq_take_min], r.advance (min_le_right ..)⟩
  | getCount => exact ⟨congrArg _ r.rep.count_toNat, r⟩
  | isEmpty =>
    refine ⟨congrArg _ (r.rep.isEmpty_eq.trans ?_), r⟩
    cases q.queued <;> rfl
  | isFull => exact ⟨congrArg _ (r.rep.isFull_eq.trans (by rw [r.size])), r⟩

end Fifo

/-! ## Items of any width -/

/-- The abstract queue with its clients: the slot the producer was given and what it put
there, and whether the consumer was shown the front item. -/
structure UniSpec (β : Type*) (s : Nat) where
  q : Stream (Item β s)
  slot : Option (Option (Item β s))
  peeked : Bool

def UniSpec.init {s : Nat} : UniSpec β s :=
  ⟨.empty, none, false⟩

/-- A bounded FIFO of `cap` items of width `s`, with the two-phase write and read. -/
def uniSpec {s : Nat} (cap : Nat) (v : UniSpec β s) : UniOp β s → Option (Out β × UniSpec β s)
  | .writeBlock b =>
    let k := min b.val.length (cap - v.q.queued.length)
    some (.wrote (if b.val = [] then .inval else if v.q.queued.length = cap then .full else .ok) k,
      { v with q := v.q.push (b.val.take k), slot := none })
  | .readBlock n =>
    some (.read (if n = 0 then .inval else if v.q.queued = [] then .empty else .ok)
      (bytesOf (v.q.queued.take n.toNat)),
      { v with q := v.q.pop (min n.toNat v.q.queued.length), peeked := false })
  | .writeAcquire =>
    if v.q.queued.length = cap then some (.code .full, { v with slot := none })
    else some (.code .ok, { v with slot := some none })
  | .fill x => v.slot.map fun _ => (.code .ok, { v with slot := some (some x) })
  | .writeCommit => v.slot.join.map fun x => (.code .ok, { v with q := v.q.push [x], slot := none })
  | .readPeek =>
    if v.q.queued = [] then some (.code .empty, { v with peeked := false })
    else some (.code .ok, { v with peeked := true })
  | .look => if v.peeked then some (.read .ok (bytesOf (v.q.queued.take 1)), v) else none
  | .readRelease =>
    if v.peeked then some (.code .ok, { v with q := v.q.pop 1, peeked := false }) else none
  | .getCount => some (.count v.q.queued.length, v)
  | .isEmpty => some (.flag v.q.queued.isEmpty, v)
  | .isFull => some (.flag (v.q.queued.length = cap), v)

section Bytes

variable {s : Nat}

theorem bytesOf_length (items : List (Item β s)) : (bytesOf items).length = items.length * s := by
  induction items with
  | nil => simp [bytesOf]
  | cons x items ih =>
    have hx := x.property
    simp only [bytesOf, map_cons, flatten_cons, length_append, length_cons] at ih ⊢
    rw [ih, hx, add_mul, one_mul, add_comm]

theorem bytesOf_append (a b : List (Item β s)) : bytesOf (a ++ b) = bytesOf a ++ bytesOf b := by
  simp [bytesOf]

theorem bytesOf_singleton (x : Item β s) : bytesOf [x] = x.val := by simp [bytesOf]

theorem bytesOf_take (items : List (Item β s)) {k : Nat} (hk : k ≤ items.length) :
    (bytesOf items).take (k * s) = bytesOf (items.take k) := by
  conv_lhs => rw [← take_append_drop k items, bytesOf_append]
  rw [take_left']
  rw [bytesOf_length, length_take, min_eq_left hk]

theorem bytesOf_drop (items : List (Item β s)) {k : Nat} (hk : k ≤ items.length) :
    (bytesOf items).drop (k * s) = bytesOf (items.drop k) := by
  conv_lhs => rw [← take_append_drop k items, bytesOf_append]
  rw [drop_left']
  rw [bytesOf_length, length_take, min_eq_left hk]

end Bytes

/-- The slot the producer holds: the write index points at it, and once it is filled a
commit publishes it. -/
def SlotSim {s : Nat} (h : Spsc β) (items : List (Item β s)) :
    Option (Nat × Bool) → Option (Option (Item β s)) → Prop
  | none, none => True
  | some (off, false), some none => off = h.offset h.wPtr ∧ items.length < h.size.toNat
  | some (off, true), some (some x) =>
    off = h.offset h.wPtr ∧ items.length < h.size.toNat ∧
      Rep h.writeCommit (bytesOf (items ++ [x])) (items.length + 1)
  | _, _ => False

structure UniSim {s : Nat} (cap : Nat) (u : UniSys β) (v : UniSpec β s) : Prop where
  size : u.h.size.toNat = cap
  item : u.h.itemSize.toNat = s
  taken : v.q.taken ≤ v.q.written.length
  rep : Rep u.h (bytesOf v.q.queued) v.q.queued.length
  slot : SlotSim u.h v.q.queued u.slot v.slot
  peeked : u.peeked = if v.peeked then some (u.h.offset u.h.rPtr) else none
  front : v.peeked = true → v.q.queued ≠ []

section Uni

variable {s cap : Nat} {u : UniSys β} {v : UniSpec β s}

section
variable (r : UniSim cap u v) (items : List (Item β s)) (x : Item β s)
include r

theorem UniSim.le : v.q.queued.length ≤ cap := r.size ▸ r.rep.le

/-- The producer publishes `items`; the consumer's side is as before. -/
theorem UniSim.put (hk : v.q.queued.length + items.length ≤ cap) :
    UniSim cap { u with h := u.h.put (bytesOf items) items.length, slot := none }
      { v with q := v.q.push items, slot := none } where
  size := r.size
  item := r.item
  taken := Stream.taken_push r.taken _
  rep := by
    rw [Stream.queued_push r.taken, bytesOf_append, length_append]
    exact r.rep.push (by rwa [r.size]) (by rw [bytesOf_length, r.item])
  slot := trivial
  peeked := r.peeked
  front := by
    intro hp
    rw [Stream.queued_push r.taken]
    simp [r.front hp]

/-- The consumer takes `k` items; the producer's slot is as before. -/
theorem UniSim.advance {k : Nat} (hk : k ≤ v.q.queued.length) :
    UniSim cap { u with h := u.h.advance k, peeked := none }
      { v with q := v.q.pop k, peeked := false } where
  size := r.size
  item := r.item
  taken := Stream.taken_pop r.taken hk
  rep := by
    have := r.rep.pop hk
    rwa [r.item, bytesOf_drop _ hk, ← length_drop, ← Stream.queued_pop] at this
  slot := by
    obtain ⟨uh, us, up⟩ := u
    obtain ⟨vq, vs, vp⟩ := v
    have hslot := r.slot
    have hitem := r.item
    simp only [Stream.queued_pop] at hslot hitem hk ⊢
    unfold SlotSim at hslot ⊢
    split at hslot
    · trivial
    · exact ⟨hslot.1, by rw [length_drop]; exact lt_of_le_of_lt (sub_le ..) hslot.2⟩
    · rename_i off x
      refine ⟨hslot.1, by rw [length_drop]; exact lt_of_le_of_lt (sub_le ..) hslot.2.1, ?_⟩
      have hrep := hslot.2.2.pop (k := k) (by omega)
      have hw : uh.writeCommit.itemSize.toNat = s := hitem
      have hdrop : vq.queued.drop k ++ [x] = (vq.queued ++ [x]).drop k :=
        (drop_append_of_le_length hk).symm
      have hlen : (vq.queued.drop k).length + 1 = vq.queued.length + 1 - k := by
        rw [length_drop]
        omega
      rw [hw] at hrep
      rw [hdrop, ← bytesOf_drop _ (by simp; omega), hlen]
      exact hrep
    · exact hslot.elim
  peeked := rfl
  front := by
    intro hp
    cases hp

/-- The slot is filled: what is queued stays, and a commit would publish the item. -/
theorem UniSim.fill (hroom : v.q.queued.length < u.h.size.toNat) : UniSim cap { u with
        h := { u.h with buf := copyTo u.h.buf (u.h.offset u.h.wPtr) x.val }
        slot := some (u.h.offset u.h.wPtr, true) }
      { v with slot := some (some x) } where
  size := r.size
  item := r.item
  taken := r.taken
  rep := r.rep.fill (x.property.trans r.item.symm) hroom
  slot := by
    refine ⟨rfl, hroom, ?_⟩
    rw [bytesOf_append, bytesOf_singleton]
    exact r.rep.fill_commit (x.property.trans r.item.symm) hroom
  peeked := r.peeked
  front := r.front

theorem UniSim.commit
    (hx : Rep u.h.writeCommit (bytesOf (v.q.queued ++ [x])) (v.q.queued.length + 1)) :
    UniSim cap { u with h := u.h.writeCommit, slot := none }
      { v with q := v.q.push [x], slot := none } where
  size := r.size
  item := r.item
  taken := Stream.taken_push r.taken _
  rep := by
    rw [Stream.queued_push r.taken, length_append]
    exact hx
  slot := trivial
  peeked := r.peeked
  front := by
    intro _
    rw [Stream.queued_push r.taken]
    simp

end

section Blocks

variable (r : UniSim cap u v) (b : Block (Item β s))

include r

theorem UniSim.writeBlock_eq : u.h.writeBlock (bytesOf b.val) b.len =
    (if b.val = [] then .inval else if v.q.queued.length = cap then .full else .ok,
      .ofNat (min b.val.length (cap - v.q.queued.length)),
      u.h.put (bytesOf (b.val.take (min b.val.length (cap - v.q.queued.length))))
        (b.val.take (min b.val.length (cap - v.q.queued.length))).length) := by
  have hlen : (bytesOf b.val).length = b.len.toNat * u.h.itemSize.toNat := by
    rw [bytesOf_length, b.len_toNat, r.item]
  simp only [r.rep.writeBlock_eq hlen, r.size, b.len_toNat, r.item, b.len_eq_zero,
    bytesOf_take _ (min_le_left b.val.length _), length_take,
    min_eq_left (min_le_left b.val.length _)]

theorem UniSim.block_fits : v.q.queued.length +
    (b.val.take (min b.val.length (cap - v.q.queued.length))).length ≤ cap := by
  have := r.le
  rw [length_take]
  omega

end Blocks

theorem UniSim.step (r : UniSim cap u v) (o : UniOp β s) :
    Agree (UniSim cap) (uniStep u o) (uniSpec cap v o) := by
  have hnil : v.q.queued.length = 0 ↔ v.q.queued = [] := length_eq_zero_iff
  have hle := r.le
  cases o with
  | writeBlock b =>
    simp only [uniStep, uniSpec, r.writeBlock_eq, b.count_toNat]
    exact .some ⟨rfl, r.put _ (r.block_fits b)⟩
  | readBlock n =>
    have hmin : min n.toNat v.q.queued.length ≤ v.q.queued.length := min_le_right ..
    simp only [uniStep, uniSpec, r.rep.readBlock_eq, hnil, r.item, bytesOf_take _ hmin,
      ← take_eq_take_min]
    exact .some ⟨rfl, r.advance hmin⟩
  | writeAcquire =>
    simp only [uniStep, uniSpec, Spsc.writeAcquire, r.rep.full_iff, r.size]
    by_cases hfull : v.q.queued.length = cap
    · simp only [hfull, if_true]
      exact .some ⟨rfl, { r with slot := trivial }⟩
    simp only [hfull, if_false]
    have hroom : v.q.queued.length < u.h.size.toNat := by
      rw [r.size]
      omega
    exact .some ⟨rfl, { r with slot := ⟨rfl, hroom⟩ }⟩
  | fill x =>
    have hslot := r.slot
    unfold SlotSim at hslot
    simp only [uniStep, uniSpec]
    split at hslot
    · rename_i hu hv
      simp only [hu, hv, map_none]
      exact .none
    · rename_i off hu hv
      simp only [hu, hv, map_some, hslot.1]
      exact .some ⟨rfl, r.fill x hslot.2⟩
    · rename_i off y hu hv
      simp only [hu, hv, map_some, hslot.1]
      exact .some ⟨rfl, r.fill x hslot.2.1⟩
    · exact hslot.elim
  | writeCommit =>
    have hslot := r.slot
    unfold SlotSim at hslot
    simp only [uniStep, uniSpec]
    split at hslot
    · rename_i hu hv
      simp only [hu, hv, join_none, map_none]
      exact .none
    · rename_i off hu hv
      simp only [hu, hv, join_some, map_none]
      exact .none
    · rename_i off x hu hv
      simp only [hu, hv, join_some, map_some]
      exact .some ⟨rfl, r.commit x hslot.2.2⟩
    · exact hslot.elim
  | readPeek =>
    simp only [uniStep, uniSpec, Spsc.readPeek, r.rep.empty_iff, hnil]
    by_cases hempty : v.q.queued = []
    · simp only [hempty, if_true]
      exact .some ⟨rfl, { r with peeked := rfl, front := fun hp => by cases hp }⟩
    · simp only [hempty, if_false]
      exact .some ⟨rfl, { r with peeked := rfl, front := fun _ => hempty }⟩
  | look =>
    simp only [uniStep, uniSpec, r.peeked]
    by_cases hp : v.peeked = true
    · have hpos : 1 ≤ v.q.queued.length := length_pos_of_ne_nil (r.front hp)
      have hfront := r.rep.slot_front hpos
      rw [r.item, bytesOf_take _ hpos] at hfront
      simp only [hp, if_true, map_some, r.item, hfront]
      exact .some ⟨rfl, r⟩
    · simp only [hp, Bool.false_eq_true, if_false, map_none]
      exact .none
  | readRelease =>
    simp only [uniStep, uniSpec, r.peeked]
    by_cases hp : v.peeked = true
    · have hpos : 1 ≤ v.q.queued.length := length_pos_of_ne_nil (r.front hp)
      simp only [hp, if_true, map_some]
      exact .some ⟨rfl, r.advance hpos⟩
    · simp only [hp, Bool.false_eq_true, if_false, map_none]
      exact .none
  | getCount => exact .some ⟨congrArg _ r.rep.count_toNat, r⟩
  | isEmpty =>
    refine .some ⟨congrArg _ (r.rep.isEmpty_eq.trans ?_), r⟩
    cases v.q.queued <;> rfl
  | isFull => exact .some ⟨congrArg _ (r.rep.isFull_eq.trans (by rw [r.size])), r⟩

end Uni

/-! ## Blocks as single calls -/

/-- One `fifo_*` call as a step of a machine; every call is offered. -/
def fifoMachine (h : Spsc β) (o : FifoOp β) : Option (Out β × Spsc β) := some (fifoStep h o)

/-- The calls by which one item is written and read without a copy. -/
def zeroCopyWrite {s : Nat} (x : Item β s) : List (UniOp β s) :=
  [.writeAcquire, .fill x, .writeCommit]

def zeroCopyRead {s : Nat} : List (UniOp β s) :=
  [.readPeek, .look, .readRelease]

def Out.cells : Out β → List β
  | .read _ l => l
  | _ => []

/-- A block call of `fifo_*` does what that many single calls do. -/
structure FifoBlocks (h : Spsc β) : Prop where
  write : ∀ b : Block β, ∃ outs, trace fifoMachine h (b.val.map .writeData) =
    some (outs, (fifoStep h (.writeBlock b)).2)
  read : ∀ n : UInt16, ∃ outs, trace fifoMachine h (.replicate n.toNat .readData) =
    some (outs, (fifoStep h (.readBlock n)).2) ∧
      outs.flatMap Out.cells = (fifoStep h (.readBlock n)).1.cells

section FifoBlocks

variable {cap : Nat} {h : Spsc β} {q : Stream β}

theorem FifoSim.writeSingles (r : FifoSim cap h q) (data : List β) :
    ∃ outs, trace fifoMachine h (data.map .writeData) =
      some (outs, h.put (data.take (cap - q.queued.length))
        (min data.length (cap - q.queued.length))) := by
  induction data generalizing h q with
  | nil => exact ⟨[], by simp [trace, Spsc.put_nil]⟩
  | cons d data ih =>
    have hle := r.le
    have hstep := r.step (.writeData d)
    simp only [fifoStep, fifoSpec, r.rep.writeData_eq r.item, r.size] at hstep
    by_cases hfull : q.queued.length = cap
    · -- no room: this call and all later ones change nothing
      obtain ⟨outs, ho⟩ := ih r
      refine ⟨.code .full :: outs, ?_⟩
      have hs : fifoMachine h (.writeData d) = some (.code .full, h) := by
        simp [fifoMachine, fifoStep, r.rep.writeData_eq r.item, r.size, hfull]
      rw [map_cons, trace_cons hs, ho]
      simp [hfull]
    simp only [hfull, if_false] at hstep
    obtain ⟨outs, ho⟩ := ih hstep.2
    refine ⟨.code .ok :: outs, ?_⟩
    have hs : fifoMachine h (.writeData d) = some (.code .ok, h.put [d] 1) := by
      simp [fifoMachine, fifoStep, r.rep.writeData_eq r.item, r.size, hfull]
    obtain ⟨f, hf⟩ : ∃ f, cap - q.queued.length = f + 1 := ⟨cap - q.queued.length - 1, by omega⟩
    have hq : cap - (q.push [d]).queued.length = f := by
      rw [Stream.queued_push r.taken, length_append, length_singleton]
      omega
    rw [map_cons, trace_cons hs, ho, hf, hq, take_succ_cons, length_cons, succ_min_succ]
    have hput := r.rep.put_put (a := [d]) (j := min data.length f)
      (by rw [r.one]; rfl) (by rw [r.one, mul_one, length_take, min_comm])
      (by rw [r.size]; omega)
    rw [hput, singleton_append, add_comm 1]
    rfl

theorem FifoSim.readSingles (r : FifoSim cap h q) (n : Nat) :
    ∃ outs, trace fifoMachine h (.replicate n .readData) =
      some (outs, h.advance (min n q.queued.length)) ∧
        outs.flatMap Out.cells = q.queued.take n := by
  induction n generalizing h q with
  | zero => exact ⟨[], by simp [trace, Spsc.advance_zero]⟩
  | succ n ih =>
    have hstep := r.step .readData
    simp only [fifoStep, fifoSpec, r.rep.readData_eq r.item] at hstep
    obtain ⟨outs, ho, hcells⟩ := ih hstep.2
    have hs : fifoMachine h .readData =
        some (.read (if q.queued.length = 0 then .empty else .ok) (q.queued.take 1),
          h.advance (min 1 q.queued.length)) := by
      simp only [fifoMachine, fifoStep, r.rep.readData_eq r.item]
    refine ⟨.read (if q.queued.length = 0 then .empty else .ok) (q.queued.take 1) :: outs,
      (trace_cons hs).trans ?_, ?_⟩
    · rw [ho, map_some, Stream.queued_pop, Spsc.advance_advance, length_drop]
      have hk : min 1 q.queued.length + min n (q.queued.length - min 1 q.queued.length) =
          min (n + 1) q.queued.length := by omega
      rw [hk]
    · rw [flatMap_cons, hcells, Stream.queued_pop]
      cases q.queued with
      | nil => simp [Out.cells]
      | cons x l => simp [Out.cells]

theorem FifoSim.blocks (r : FifoSim cap h q) : FifoBlocks h where
  write := by
    intro b
    have hlen : b.val.length = b.len.toNat * h.itemSize.toNat := by
      rw [r.one, mul_one, b.len_toNat]
    obtain ⟨outs, ho⟩ := r.writeSingles b.val
    refine ⟨outs, ho.trans ?_⟩
    simp only [fifoStep, r.rep.writeBlock_eq hlen, r.size, b.len_toNat, r.one, mul_one]
    rw [min_comm, ← take_eq_take_min]
  read := by
    intro n
    obtain ⟨outs, ho, hcells⟩ := r.readSingles n.toNat
    simp only [fifoStep, r.rep.readBlock_eq, r.one, mul_one, Out.cells, ← take_eq_take_min]
    exact ⟨outs, ho, hcells⟩

end FifoBlocks

/-- A block call of `fifo_uni_*` does what the zero-copy calls for the items it moves do. -/
structure UniBlocks (s : Nat) (u : UniSys β) : Prop where
  write : ∀ b : Block (Item β s), ∃ outs u',
    trace uniStep u ((b.val.take (u.h.writeBlock (bytesOf b.val) b.len).2.1.toNat).flatMap
      zeroCopyWrite) = some (outs, u') ∧ u'.h = (u.h.writeBlock (bytesOf b.val) b.len).2.2
  read : ∀ n : UInt16, ∃ k outs u', (u.h.readBlock n).2.1.length = k * s ∧
    trace uniStep u (replicate k (zeroCopyRead (s := s))).flatten = some (outs, u') ∧
      u'.h = (u.h.readBlock n).2.2 ∧ outs.flatMap Out.cells = (u.h.readBlock n).2.1

section UniBlocks

variable {s cap : Nat} {u : UniSys β} {v : UniSpec β s}

section
variable (r : UniSim cap u v) (items : List (Item β s))
include r

theorem UniSim.zeroCopyWrite_eq (hroom : v.q.queued.length < cap) (x : Item β s) :
    trace uniStep u (zeroCopyWrite x) = some ([.code .ok, .code .ok, .code .ok],
      { u with h := u.h.put x.val 1, slot := none }) := by
  have hfull : ¬ u.h.size ≤ u.h.count := by
    rw [r.rep.full_iff, r.size]
    omega
  simp only [zeroCopyWrite, trace, uniStep, Spsc.writeAcquire, hfull, if_false, bind_some,
    map_some, r.rep.copyTo_slot (x.property.trans r.item.symm)]
  rfl

theorem UniSim.writeSingles (hroom : v.q.queued.length + items.length ≤ cap) :
    ∃ outs u', trace uniStep u (items.flatMap zeroCopyWrite) = some (outs, u') ∧
      u'.h = u.h.put (bytesOf items) items.length := by
  induction items generalizing u v with
  | nil => exact ⟨[], u, rfl, u.h.put_nil.symm⟩
  | cons x items ih =>
    rw [length_cons] at hroom
    have hone := r.zeroCopyWrite_eq (by omega) x
    have hput := r.put [x] (by rw [length_singleton]; omega)
    rw [bytesOf_singleton, length_singleton] at hput
    have hlen : (v.q.push [x]).queued.length = v.q.queued.length + 1 := by
      rw [Stream.queued_push r.taken, length_append, length_singleton]
    obtain ⟨outs, u', ho, hu⟩ := ih hput (by rw [hlen]; omega)
    refine ⟨[.code .ok, .code .ok, .code .ok] ++ outs, u', ?_, hu.trans ?_⟩
    · rw [flatMap_cons, trace_append hone, ho, map_some]
    · have hcell : x.val.length = 1 * u.h.itemSize.toNat := by rw [r.item, one_mul, x.property]
      have hcells : (bytesOf items).length = items.length * u.h.itemSize.toNat := by
        rw [r.item, bytesOf_length]
      have hsize : 1 + items.length ≤ u.h.size.toNat := by
        rw [r.size]
        omega
      rw [show bytesOf (x :: items) = x.val ++ bytesOf items from by simp [bytesOf],
        length_cons, add_comm items.length]
      exact r.rep.put_put hcell hcells hsize

theorem UniSim.zeroCopyRead_eq (hpos : 1 ≤ v.q.queued.length) :
    trace uniStep u (zeroCopyRead (s := s)) =
      some ([.code .ok, .read .ok (bytesOf (v.q.queued.take 1)), .code .ok],
        { u with h := u.h.advance 1, peeked := none }) := by
  have hempty : ¬ u.h.rPtr = u.h.wPtr := by
    rw [r.rep.empty_iff]
    omega
  have hfront := r.rep.slot_front hpos
  rw [r.item, bytesOf_take _ hpos] at hfront
  simp only [zeroCopyRead, trace, uniStep, Spsc.readPeek, hempty, if_false, bind_some,
    map_some, r.item, hfront]
  rfl

theorem UniSim.readSingles {k : Nat} (hk : k ≤ v.q.queued.length) :
    ∃ outs u', trace uniStep u (replicate k (zeroCopyRead (s := s))).flatten = some (outs, u') ∧
      u'.h = u.h.advance k ∧ outs.flatMap Out.cells = bytesOf (v.q.queued.take k) := by
  induction k generalizing u v with
  | zero => exact ⟨[], u, rfl, u.h.advance_zero.symm, rfl⟩
  | succ k ih =>
    have hone := r.zeroCopyRead_eq (by omega)
    obtain ⟨outs, u', ho, hu, hcells⟩ := ih (r.advance (k := 1) (by omega))
      (by simp only [Stream.queued_pop, length_drop]; omega)
    refine ⟨[.code .ok, .read .ok (bytesOf (v.q.queued.take 1)), .code .ok] ++ outs, u', ?_,
      hu.trans ?_, ?_⟩
    · rw [replicate_succ, flatten_cons, trace_append hone, ho, map_some]
    · rw [Spsc.advance_advance, add_comm]
    · rw [flatMap_append, hcells, Stream.queued_pop]
      cases hq : v.q.queued with
      | nil => simp [hq] at hk
      | cons x l => simp [Out.cells, bytesOf]

theorem UniSim.blocks : UniBlocks s u where
  write := by
    intro b
    simp only [r.writeBlock_eq, b.count_toNat]
    exact r.writeSingles _ (r.block_fits b)
  read := by
    intro n
    have hmin : min n.toNat v.q.queued.length ≤ v.q.queued.length := min_le_right ..
    obtain ⟨outs, u', ho, hu, hcells⟩ := r.readSingles hmin
    refine ⟨min n.toNat v.q.queued.length, outs, u', ?_, ho, ?_, ?_⟩
    · rw [r.rep.readBlock_eq, r.item, bytesOf_take _ hmin, bytesOf_length, length_take,
        min_eq_left hmin]
    · rw [r.rep.readBlock_eq, hu]
    · rw [r.rep.readBlock_eq, r.item, bytesOf_take _ hmin, hcells]

end

end UniBlocks

/-! ## Main result -/

/-- From an accepted initialisation on, every run of `fifo_*` calls reports what the bounded
FIFO of that capacity reports, and in every state it reaches a block call is that many
single calls. -/
def FifoBounded (cap : Nat) (h : Spsc β) : Prop := ∀ ops : List (FifoOp β), ∃ outs h' q',
    trace fifoMachine h ops = some (outs, h') ∧
      trace (fun q o => some (fifoSpec cap q o)) Stream.empty ops = some (outs, q') ∧ FifoBlocks h'

/-- The same for `fifo_uni_*`. A run that breaks the pairing of the zero-copy calls is
offered by neither side. -/
def UniBounded (s cap : Nat) (h : Spsc β) : Prop := ∀ ops : List (UniOp β s),
    Agree (fun u _ => UniBlocks s u) (trace uniStep ⟨h, none, none⟩ ops)
      (trace (uniSpec cap) .init ops)

theorem FifoSim.init {size : UInt16} {h : Spsc β} (hi : fifoInit buf size = some h) :
    FifoSim size.toNat h Stream.empty := by
  have hrep := Rep.init hi
  obtain ⟨-, ⟨⟩⟩ := ite_none_left_eq_some.mp hi
  exact ⟨rfl, rfl, le_refl _, hrep⟩

theorem UniSim.init {h : Spsc β} (hi : fifoUniInit buf itemSize itemCount = some h) :
    UniSim itemCount.toNat ⟨h, none, none⟩ (UniSpec.init (s := itemSize.toNat)) := by
  have hrep := Rep.init hi
  obtain ⟨-, ⟨⟩⟩ := ite_none_left_eq_some.mp hi
  exact ⟨rfl, rfl, le_refl _, hrep, trivial, rfl, fun h => by cases h⟩

/-- Both ring buffers are bounded FIFO queues of the capacity their initialisation accepts,
through any number of wraps of the 16-bit indices. -/
theorem spsc_bounded (buf : Nat → β) (itemSize size : UInt16) :
    (∀ h, fifoInit buf size = some h → FifoBounded size.toNat h) ∧
      ∀ h, fifoUniInit buf itemSize size = some h → UniBounded itemSize.toNat size.toNat h := by
  constructor
  · intro h hi ops
    have hrel := trace_rel
      (fun _ _ o r => Option.Rel.some (FifoSim.step r o)) (FifoSim.init hi) ops
    obtain ⟨⟨outs, h'⟩, ht⟩ := trace_total fifoStep h ops
    obtain ⟨⟨outs', q'⟩, hq⟩ := trace_total (fifoSpec size.toNat) Stream.empty ops
    unfold fifoMachine at hrel ⊢
    rw [ht, hq] at hrel
    cases hrel with
    | some hxy =>
      obtain ⟨rfl, hsim⟩ := hxy
      exact ⟨outs, h', q', ht, hq, hsim.blocks⟩
  · intro h hi ops
    have hrel := trace_rel (fun _ _ o r => UniSim.step r o) (UniSim.init hi) ops
    exact hrel.imp fun _ _ hsim => hsim.blocks

/-- Rings of four one-cell items and of four two-byte items. -/
theorem spsc_bounded_four : FifoBounded 4 ⟨fun _ => (0 : UInt8), 4, 1, 3, 0, 0⟩ ∧
      UniBounded 2 4 ⟨fun _ => (0 : UInt8), 4, 2, 3, 0, 0⟩ :=
  ⟨(spsc_bounded _ 2 4).1 _ rfl, (spsc_bounded _ 2 4).2 _ rfl⟩

end MiniTree.Algorithm
