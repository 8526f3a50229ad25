import MiniTree.Algorithm.Fifo
import MiniTree.Core.LTS

/-!
# Double buffers (`algorithm/buffer/double_buffer.c`)

`Double`: the producer fills `buf1` and the consumer drains `buf2`. A write that fills the write
side and finds the read side drained swaps the two; no other call does. `Dual`: writer and reader
change buffers on their own, and the pointers are never reset. Pointers are taken to be valid, and
the indices never pass the 16-bit size.

**Results.** `Double.inv_isInvariant`: in every run the accepted values are the delivered ones and
what the two sides hold, in this order. `flows_of_drained`: where every write that fills the
write side finds the read side drained, the write side is never left full. `flows_of_once`: the two
buffers are a stream for as long as they are not filled and nothing is asked for that is not there.
-/

namespace MiniTree.Algorithm

open MiniTree.Core Function Nat

variable {β : Type*}

/-- mirrors buffer.h (`struct double_buffer_spsc`), with the values the writes
accepted and the reads returned -/
structure Double (β : Type*) where
  buf1 : Nat → β
  buf2 : Nat → β
  size : Nat
  wPtr : Nat
  rPtr : Nat
  accepted : List β
  delivered : List β

namespace Double

/-- mirrors double_buffer.c:27-43 (`double_buffer_init`) -/
def init (buf1 buf2 : Nat → β) (size : UInt16) : Option (Double β) :=
  if size = 0 ∨ size &&& (size - 1) ≠ 0 then none
  else some ⟨buf1, buf2, size.toNat, 0, size.toNat, [], []⟩

section
variable (h : Double β)

/-- mirrors double_buffer.c:16-25 (`double_buffer_swap`) -/
def swap : Double β := { h with buf1 := h.buf2, buf2 := h.buf1, rPtr := 0, wPtr := 0 }

/-- mirrors double_buffer.c:104-110 -/
def put (data : List β) : Double β :=
  let h' := { h with
    buf1 := copyTo h.buf1 h.wPtr data
    wPtr := h.wPtr + data.length
    accepted := h.accepted ++ data }
  if h'.wPtr = h.size ∧ h.rPtr = h.size then h'.swap else h'

/-- mirrors double_buffer.c:84-115 (`double_buffer_write_block`) -/
def writeBlock (data : List β) : BuffErr × Double β :=
  if data = [] then (.inval, h)
  else if h.size - h.wPtr = 0 then (.full, h)
  else (.ok, h.put (data.take (h.size - h.wPtr)))

/-- mirrors double_buffer.c:45-65 (`double_buffer_write_data`) -/
def writeData (data : β) : BuffErr × Double β := h.writeBlock [data]

/-- mirrors double_buffer.c:137-138 -/
def get (n : Nat) : Double β :=
  { h with rPtr := h.rPtr + n, delivered := h.delivered ++ copyFrom h.buf2 h.rPtr n }

/-- mirrors double_buffer.c:117-142 (`double_buffer_read_block`) -/
def readBlock (len : Nat) : BuffErr × Double β :=
  if len = 0 then (.inval, h)
  else if h.size - h.rPtr = 0 then (.empty, h)
  else (.ok, h.get (min len (h.size - h.rPtr)))

/-- mirrors double_buffer.c:67-82 (`double_buffer_read_data`) -/
def readData : BuffErr × Double β := h.readBlock 1

end

inductive Label (β : Type*) where
  | writeData (data : β)
  | writeBlock (data : List β)
  | readData
  | readBlock (len : Nat)

def step (h : Double β) : Label β → Option (Double β)
  | .writeData data => some (h.writeData data).2
  | .writeBlock data => some (h.writeBlock data).2
  | .readData => some h.readData.2
  | .readBlock len => some (h.readBlock len).2

def sys (β : Type*) : LTS (Double β) (Label β) :=
  .ofFn (fun h => ∃ buf1 buf2 size, init buf1 buf2 size = some h) step

def held (h : Double β) : List β :=
  copyFrom h.buf2 h.rPtr (h.size - h.rPtr) ++ copyFrom h.buf1 0 h.wPtr

/-- Nothing is lost, repeated or reordered, and with the read side drained and the write side
full a write succeeds. -/
structure Flows (h : Double β) : Prop where
  stream : h.accepted = h.delivered ++ h.held
  unwedged : h.rPtr = h.size → h.wPtr = h.size → ∀ data ≠ [], (h.writeBlock data).1 = .ok

/-- A write that fills the write side finds the read side drained. -/
def Drained (h : Double β) : Label β → Prop
  | .writeData _ => h.size ≤ h.wPtr + 1 → h.rPtr = h.size
  | .writeBlock data => h.size ≤ h.wPtr + data.length → h.rPtr = h.size
  | _ => True

instance (h : Double β) : (l : Label β) → Decidable (Drained h l)
  | .writeData _ | .writeBlock _ => inferInstanceAs (Decidable (_ → _))
  | .readData | .readBlock _ => inferInstanceAs (Decidable True)

structure Inv (h : Double β) : Prop where
  write_le : h.wPtr ≤ h.size
  read_le : h.rPtr ≤ h.size
  stream : h.accepted = h.delivered ++ h.held

section Steps

variable {h h' : Double β} {data : List β} {l : Label β}

theorem Inv.writeBlock (i : Inv h) (data : List β) : Inv (h.writeBlock data).2 := by
  unfold Double.writeBlock
  split_ifs
  · exact i
  · exact i
  have hfit : h.wPtr + (data.take (h.size - h.wPtr)).length ≤ h.size := by
    rw [List.length_take]
    omega
  generalize data.take (h.size - h.wPtr) = data at hfit
  have hs := i.stream
  have hnew := copyFrom_copyTo h.buf1 data (zero_le h.wPtr)
  rw [Nat.sub_zero, Nat.sub_zero] at hnew
  unfold held at hs
  unfold put
  dsimp only
  split
  · rename_i hfull
    refine ⟨Nat.zero_le _, Nat.zero_le _, ?_⟩
    simp only [held, swap, Nat.sub_zero, ← hfull.1, hnew, hs, hfull.2, Nat.sub_self]
    simp [copyFrom]
  · refine ⟨hfit, i.read_le, ?_⟩
    simp only [held, hnew, hs, List.append_assoc]

theorem Inv.readBlock (i : Inv h) (len : Nat) : Inv (h.readBlock len).2 := by
  unfold Double.readBlock
  split_ifs
  · exact i
  · exact i
  have hn : min len (h.size - h.rPtr) ≤ h.size - h.rPtr := min_le_right ..
  generalize min len (h.size - h.rPtr) = n at hn
  refine ⟨i.write_le, show h.rPtr + n ≤ h.size by have := i.read_le; omega, ?_⟩
  simp only [held, get, i.stream, copyFrom_split _ hn, List.append_assoc]

theorem inv_isInvariant (β : Type*) : (sys β).IsInvariant Inv where
  init h := by
    rintro ⟨buf1, buf2, size, hi⟩
    unfold Double.init at hi
    split at hi <;> cases hi
    exact ⟨zero_le _, le_rfl, by simp [held, copyFrom]⟩
  step h l h' i hs := by
    cases l <;> cases hs
    · exact i.writeBlock _
    · exact i.writeBlock _
    · exact i.readBlock _
    · exact i.readBlock _

/-- The write side has room again after a write that was allowed to fill it. -/
theorem writeBlock_room (hw : h.wPtr < h.size)
    (hd : h.size ≤ h.wPtr + data.length → h.rPtr = h.size) :
    (h.writeBlock data).2.wPtr < (h.writeBlock data).2.size := by
  unfold Double.writeBlock
  split_ifs
  · exact hw
  · exact hw
  unfold put
  dsimp only
  rw [List.length_take]
  split
  · exact zero_lt_of_lt hw
  · dsimp only
    omega

theorem readBlock_room (hw : h.wPtr < h.size) (len : Nat) :
    (h.readBlock len).2.wPtr < (h.readBlock len).2.size := by
  unfold Double.readBlock
  split_ifs <;> exact hw

end Steps

theorem flows_of_drained {h : Double β} (hr : ((sys β).restrict Drained).Reachable h) : Flows h := by
  have hroom : ((sys β).restrict Drained).IsInvariant fun h => h.wPtr < h.size :=
    { init := by
        rintro h ⟨buf1, buf2, size, hi⟩
        unfold Double.init at hi
        split at hi <;> cases hi
        rename_i hok
        exact Nat.pos_of_ne_zero fun hz => hok (.inl (UInt16.toNat_inj.mp hz))
      step := by
        rintro h l h' hw ⟨hd, hs⟩
        cases l <;> cases hs
        · exact writeBlock_room hw hd
        · exact writeBlock_room hw hd
        · exact readBlock_room hw 1
        · exact readBlock_room hw _ }
  exact ⟨((inv_isInvariant β).holds hr.of_restrict).stream,
    fun _ hfull => absurd hfull (hroom.holds hr).ne⟩

/-- A block fills the write side of an empty buffer; the reader gets half of it. -/
theorem flows_of_drained_block : ∃ h : Double Nat, ((sys Nat).restrict Drained).Reachable h ∧
    h.delivered = [7] ∧ Flows h := by
  obtain ⟨h, hr, hp⟩ := LTS.Reachable.of_execOk (sys Nat).init step Drained
    ⟨fun _ => 0, fun _ => 0, 2, 0, 2, [], []⟩ [.writeBlock [7, 8, 9], .writeData 9, .readData]
    (fun h => h.delivered = [7]) ⟨_, _, 2, rfl⟩ (by decide)
  exact ⟨h, hr, hp, flows_of_drained hr⟩

/-- The write side fills while one value is unread. The reader drains its side, and every
later write finds the write side full. -/
theorem double_buffer_wedges : ¬ ∀ (β : Type) (h : Double β), (sys β).Reachable h → Flows h := by
  intro hall
  obtain ⟨h, hr, hd, hw⟩ := LTS.Reachable.of_exec (sys Nat).init step
    ⟨fun _ => 0, fun _ => 0, 1, 0, 1, [], []⟩ [.writeData 7, .writeData 8, .readData]
    (fun h => (h.rPtr = h.size ∧ h.wPtr = h.size) ∧ (h.writeBlock [9]).1 = .full) ⟨_, _, 1, rfl⟩
    (by decide)
  have := (hall Nat h hr).unwedged hd.1 hd.2 [9] (by simp)
  rw [hw] at this
  cases this

theorem stream_intact {h : Double β} (hr : (sys β).Reachable h) :
    h.accepted = h.delivered ++ h.held := ((inv_isInvariant β).holds hr).stream

/-- Three values pass a swap, one of them is read. -/
theorem stream_intact_three : ∃ h : Double Nat, (sys Nat).Reachable h ∧
    (h.delivered = [7] ∧ h.held = [8, 9]) ∧ h.accepted = h.delivered ++ h.held := by
  obtain ⟨h, hr, hp⟩ := LTS.Reachable.of_exec (sys Nat).init step
    ⟨fun _ => 0, fun _ => 0, 2, 0, 2, [], []⟩ [.writeBlock [7, 8], .writeData 9, .readData]
    (fun h => h.delivered = [7] ∧ h.held = [8, 9]) ⟨_, _, 2, rfl⟩ (by decide)
  exact ⟨h, hr, hp, stream_intact hr⟩

end Double

/-! ## Two independent buffers -/

structure Half (β : Type*) where
  buf : Nat → β
  w : Nat
  r : Nat

namespace Half

variable {x : Half β}

def put (x : Half β) (data : List β) : Half β := ⟨copyTo x.buf x.w data, x.w + data.length, x.r⟩

def get (x : Half β) (n : Nat) : Half β := { x with r := x.r + n }

def unread (x : Half β) : List β := copyFrom x.buf x.r (x.w - x.r)

@[simp] theorem put_w (data : List β) : (x.put data).w = x.w + data.length := rfl

@[simp] theorem put_r (data : List β) : (x.put data).r = x.r := rfl

theorem unread_put (h : x.r ≤ x.w) (data : List β) : (x.put data).unread = x.unread ++ data :=
  copyFrom_copyTo _ _ h

theorem unread_get {n : Nat} (h : n ≤ x.w - x.r) :
    x.unread = copyFrom x.buf x.r n ++ (x.get n).unread :=
  copyFrom_split _ h

theorem unread_eq_nil (h : x.w ≤ x.r) : x.unread = [] := by
  simp [unread, copyFrom, Nat.sub_eq_zero_of_le h]

end Half

/-- mirrors buffer.h:369-382 (`struct dual_buffer_spsc`), `false` for the first buffer, with
the items the writes accepted and the reads returned -/
structure Dual (β : Type*) where
  half : Bool → Half β
  size : Nat
  activeW : Bool
  activeR : Bool
  accepted : List β
  delivered : List β

namespace Dual

/-- mirrors double_buffer.c:177-199 (`dual_buffer_init`) -/
def init (buf : Bool → Nat → β) (itemSize size : UInt16) : Option (Dual β) :=
  if itemSize = 0 ∨ size = 0 ∨ size &&& (size - 1) ≠ 0 then none
  else some ⟨fun i => ⟨buf i, 0, 0⟩, size.toNat, false, false, [], []⟩

section
variable (h : Dual β)

/-- What fits the active buffer is written, the rest is left.
mirrors double_buffer.c:219-233 -/
def fill (data : List β) : Dual β × List β :=
  let x := h.half h.activeW
  let free := h.size - x.w
  ({ h with
    half := update h.half h.activeW (x.put (data.take free))
    accepted := h.accepted ++ data.take free }, data.drop free)

/-- mirrors double_buffer.c:201-260 (`dual_buffer_write_block`) -/
def writeBlock (data : List β) : BuffErr × Dual β :=
  if data = [] then (.inval, h)
  else
    let x := h.fill data
    let y := if x.2 ≠ [] ∧ h.size ≤ (x.1.half h.activeW).w then
        fill { x.1 with activeW := !h.activeW } x.2
      else x
    (if y.2.length = data.length then .full else .ok, y.1)

/-- mirrors double_buffer.c:283-297 -/
def drain (count : Nat) : Dual β × Nat :=
  let x := h.half h.activeR
  let n := min count (x.w - x.r)
  ({ h with
    half := update h.half h.activeR (x.get n)
    delivered := h.delivered ++ copyFrom x.buf x.r n }, count - n)

/-- mirrors double_buffer.c:262-326 (`dual_buffer_read_block`) -/
def readBlock (count : Nat) : BuffErr × Dual β :=
  if count = 0 then (.inval, h)
  else
    let x := h.drain count
    let y := if x.2 ≠ 0 ∧ (h.half h.activeR).w ≤ (x.1.half h.activeR).r then
        drain { x.1 with activeR := !h.activeR } x.2
      else x
    (if y.2 = count then .empty else .ok, y.1)

/-- mirrors double_buffer.c:360-376 (`dual_buffer_get_count`) -/
def getCount : Nat :=
  ((h.half false).w - (h.half false).r + ((h.half true).w - (h.half true).r)) % 65536

end

inductive Label (β : Type*) where
  | writeBlock (data : List β)
  | readBlock (count : Nat)

def step (h : Dual β) : Label β → Option (Dual β)
  | .writeBlock data => some (h.writeBlock data).2
  | .readBlock count => some (h.readBlock count).2

def sys (β : Type*) : LTS (Dual β) (Label β) :=
  .ofFn (fun h => ∃ buf itemSize size, init buf itemSize size = some h) step

/-- Nothing is lost, repeated or reordered, and with everything read a write succeeds. -/
structure Flows (h : Dual β) : Prop where
  stream : h.accepted =
    h.delivered ++ ((h.half h.activeR).unread ++ (h.half !h.activeR).unread)
  room : h.accepted = h.delivered → ∀ data ≠ [], (h.writeBlock data).1 = .ok

/-- The two buffers are never both full, and a read asks for no more than there is. -/
def Once (h : Dual β) : Label β → Prop
  | .writeBlock data => (h.half false).w + (h.half true).w + data.length < 2 * h.size
  | .readBlock count => count ≤ h.getCount

instance (h : Dual β) : (l : Label β) → Decidable (Once h l)
  | .writeBlock _ => inferInstanceAs (Decidable (_ < _))
  | .readBlock _ => inferInstanceAs (Decidable (_ ≤ _))

/-- The first buffer is filled, and read, before the second. -/
structure Inv (h : Dual β) : Prop where
  le : ∀ i, (h.half i).r ≤ (h.half i).w ∧ (h.half i).w ≤ h.size
  stream : h.accepted = h.delivered ++ ((h.half false).unread ++ (h.half true).unread)
  writing : if h.activeW then (h.half false).w = h.size else (h.half true).w = 0
  reading : if h.activeR then (h.half false).r = h.size else (h.half true).r = 0
  room : (h.half false).w + (h.half true).w < 2 * h.size

section Steps

variable {h : Dual β} {data : List β} {n : Nat}

theorem Inv.fill (i : Inv h)
    (hr : (h.half false).w + (h.half true).w + data.length < 2 * h.size) : Inv (h.fill data).1 := by
  have hle := i.le
  have hput := Half.unread_put (i.le h.activeW).1 (data.take (h.size - (h.half h.activeW).w))
  obtain ⟨-, hs, hact, hrd, -⟩ := i
  rw [Bool.forall_bool] at hle
  cases ha : h.activeW <;> simp only [ha, if_true, Bool.false_eq_true, if_false] at hact hput
  · -- the second buffer is empty yet
    have hnil : (h.half true).unread = [] := Half.unread_eq_nil (by omega)
    constructor <;> simp [Dual.fill, ha, hput, hs, hnil] at hrd ⊢ <;> omega
  · constructor <;> simp [Dual.fill, ha, hput, hs] at hrd ⊢ <;> omega

theorem Inv.drain (i : Inv h) (n : Nat) : Inv (h.drain n).1 := by
  have hle := i.le
  have hget := Half.unread_get (min_le_right n ((h.half h.activeR).w - (h.half h.activeR).r))
  obtain ⟨-, hs, hact, hrd, hr⟩ := i
  rw [Bool.forall_bool] at hle
  cases ha : h.activeR <;> simp only [ha, if_true, Bool.false_eq_true, if_false] at hrd hget
  · constructor <;> simp [Dual.drain, ha, hget, hs, Half.get] at hact ⊢ <;> omega
  · have hnil : (h.half false).unread = [] := Half.unread_eq_nil (by omega)
    constructor <;> simp [Dual.drain, ha, hget, hs, hnil, Half.get] at hact ⊢ <;> omega

theorem Inv.writeBlock (i : Inv h)
    (hr : (h.half false).w + (h.half true).w + data.length < 2 * h.size) :
    Inv (h.writeBlock data).2 := by
  have hx := i.fill hr
  have hact := i.writing
  unfold Dual.writeBlock
  dsimp only
  split
  · exact i
  split
  · rename_i hy
    have hrest : h.size - (h.half h.activeW).w < data.length := by simpa [Dual.fill] using hy.1
    have ha : h.activeW = false := by
      by_contra ha
      simp only [Bool.not_eq_false] at ha
      simp only [ha, if_true] at hact hrest
      omega
    have hfull := (hx.le h.activeW).2.antisymm hy.2
    refine Inv.fill { hx with writing := ?_ } ?_
    · simpa [ha] using hfull
    · simp [Dual.fill, ha] at hrest ⊢
      omega
  · exact hx

theorem Inv.readBlock (i : Inv h) (hc : n ≤ h.getCount) : Inv (h.readBlock n).2 := by
  have hx := i.drain n
  have hle := i.le
  have hact := i.writing
  have hrd := i.reading
  unfold getCount at hc
  rw [Bool.forall_bool] at hle
  unfold Dual.readBlock
  dsimp only
  split
  · exact i
  split
  · rename_i hy
    have hrest : (h.half h.activeR).w - (h.half h.activeR).r < n := by
      have := hy.1
      simp only [Dual.drain] at this
      omega
    have ha : h.activeR = false := by
      by_contra ha
      simp only [Bool.not_eq_false] at ha
      simp only [ha, if_true] at hrd hrest
      omega
    refine Inv.drain (h := { (h.drain n).1 with activeR := !h.activeR })
      { hx with reading := ?_ } _
    -- there is more to read, so the first buffer was filled
    simp only [ha, Bool.false_eq_true, if_false] at hrd hrest
    have hfull : (h.half false).w = h.size := by split at hact <;> omega
    simp [Dual.drain, Half.get, ha]
    omega
  · exact hx

theorem Inv.flows (i : Inv h) : Flows h := by
  have hle := i.le
  obtain ⟨-, hs, hact, hrd, hroom⟩ := i
  rw [Bool.forall_bool] at hle
  refine ⟨?_, fun _ data hd => ?_⟩
  · cases ha : h.activeR <;> simp only [ha, if_true, Bool.false_eq_true, if_false] at hrd
    · exact hs
    · simpa [Half.unread_eq_nil (show (h.half false).w ≤ (h.half false).r by omega)] using hs
  · have hpos := List.length_pos_iff.mpr hd
    unfold Dual.writeBlock
    rw [if_neg hd]
    refine if_neg ?_
    dsimp only
    -- behind a full first buffer the second has room
    cases ha : h.activeW <;> simp only [ha, if_true, Bool.false_eq_true, if_false] at hact <;>
      split <;> rename_i hy <;> simp [Dual.fill, ha] at hy ⊢ <;> omega

theorem inv_once (β : Type*) : ((sys β).restrict Once).IsInvariant Inv where
  init h := by
    rintro ⟨buf, itemSize, size, hi⟩
    unfold Dual.init at hi
    split at hi <;> cases hi
    rename_i hok
    have hpos : size.toNat ≠ 0 := fun hz => hok (.inr (.inl (UInt16.toNat_inj.mp hz)))
    constructor <;> simp [Half.unread, copyFrom, Nat.pos_of_ne_zero hpos]
  step h l h' i := by
    rintro ⟨ho, hs⟩
    cases l <;> cases hs
    · exact i.writeBlock ho
    · exact i.readBlock ho

end Steps

theorem flows_of_once {h : Dual β} (hr : ((sys β).restrict Once).Reachable h) : Flows h :=
  ((inv_once β).holds hr).flows

/-- Three items pass through buffers of two, one of them is read. -/
theorem flows_of_once_three : ∃ h : Dual Nat, ((sys Nat).restrict Once).Reachable h ∧
    h.activeW = true ∧ h.delivered = [7] ∧ Flows h := by
  obtain ⟨h, hr, hw, hp⟩ := LTS.Reachable.of_execOk (sys Nat).init step Once
    ⟨fun _ => ⟨fun _ => 0, 0, 0⟩, 2, false, false, [], []⟩ [.writeBlock [7, 8, 9], .readBlock 1]
    (fun h => h.activeW = true ∧ h.delivered = [7]) ⟨_, 1, 2, rfl⟩ (by decide)
  exact ⟨h, hr, hw, hp, flows_of_once hr⟩

/-- Two items are written and read, and both buffers are full for good. -/
theorem dual_buffer_fills : ¬ ∀ (β : Type) (h : Dual β), (sys β).Reachable h → Flows h := by
  intro hall
  obtain ⟨h, hr, hd, hw⟩ := LTS.Reachable.of_exec (sys Nat).init step
    ⟨fun _ => ⟨fun _ => 0, 0, 0⟩, 1, false, false, [], []⟩ [.writeBlock [7, 8], .readBlock 2]
    (fun h => h.accepted = h.delivered ∧ (h.writeBlock [9]).1 = .full) ⟨_, 1, 1, rfl⟩ (by decide)
  have := (hall Nat h hr).room hd [9] (by simp)
  rw [hw] at this
  cases this

end Dual

end MiniTree.Algorithm
