import MiniTree.Core.RingBuffer

/-!
# SPSC ring buffers (`algorithm/buffer/circle_fifo_buffer.c`)

`fifo_*` is a ring of words, `fifo_uni_*` a ring of items of a width chosen at
initialisation. Both keep free-running 16-bit indices, map them into the buffer with a
mask and copy blocks in at most two parts, so both are one record here: a `fifo_spsc` is
a ring whose items are one cell wide. Pointers are taken to be valid, so the `NULL` tests
are left out; `bytes`, `w_off` and `space_to_end` are products of two 16-bit values and
do not wrap in 32 bits.

`fifoStep` and `uniStep` are one API call by the producer or the consumer. The zero-copy
calls hand out a slot the client then reads or writes itself: `UniSys` adds the client's
side, that is the slot it was given, to the handle.
-/

namespace MiniTree.Algorithm

open MiniTree.Core

/-- mirrors buffer.h:28-31 -/
inductive BuffErr where
  | ok | inval | full | empty
  deriving DecidableEq, Repr

/-- mirrors buffer.h (`struct fifo_spsc`, `struct fifo_uni_spsc`) -/
structure Spsc (β : Type*) where
  buf : Nat → β
  size : UInt16
  itemSize : UInt16
  mask : UInt16
  wPtr : UInt16
  rPtr : UInt16

variable {β : Type*}

/-- mirrors circle_fifo_buffer.c:196-211 -/
def fifoUniInit (buf : Nat → β) (itemSize itemCount : UInt16) : Option (Spsc β) :=
  if itemSize = 0 ∨ itemCount = 0 ∨ itemCount &&& (itemCount - 1) ≠ 0 then none
  else some
    { buf := buf
      size := itemCount
      itemSize := itemSize
      mask := itemCount - 1
      wPtr := 0
      rPtr := 0 }

/-- mirrors circle_fifo_buffer.c:12-25 -/
def fifoInit (buf : Nat → β) (size : UInt16) : Option (Spsc β) := fifoUniInit buf 1 size

namespace Spsc

section
variable (h : Spsc β)

/-- The free-running indices differ by the number of items held. -/
def count : UInt16 := h.wPtr - h.rPtr

/-- Where an index points, in cells. -/
def offset (ptr : UInt16) : Nat := (ptr &&& h.mask).toNat * h.itemSize.toNat

def capacity : Nat := h.size.toNat * h.itemSize.toNat

/-- `space_to_end` -/
def spaceToEnd (ptr : UInt16) : Nat := h.capacity - h.offset ptr

/-- The copies of `fifo_write_block` and `fifo_uni_write_block`. -/
def copyIn (ptr count : UInt16) (pData : List β) : Nat → β :=
  let bytes := count.toNat * h.itemSize.toNat
  let toEnd := h.spaceToEnd ptr
  if bytes ≤ toEnd then copyTo h.buf (h.offset ptr) (pData.take bytes)
  else
    copyTo (copyTo h.buf (h.offset ptr) (pData.take toEnd)) 0
      ((pData.drop toEnd).take (bytes - toEnd))

/-- The copies of `fifo_read_block` and `fifo_uni_read_block`. -/
def copyOut (ptr count : UInt16) : List β :=
  let bytes := count.toNat * h.itemSize.toNat
  let toEnd := h.spaceToEnd ptr
  if bytes ≤ toEnd then copyFrom h.buf (h.offset ptr) bytes
  else copyFrom h.buf (h.offset ptr) toEnd ++ copyFrom h.buf 0 (bytes - toEnd)

/-- mirrors circle_fifo_buffer.c:213-255 (`fifo_uni_write_block`) and
50-90 (`fifo_write_block`): the code, `*p_actual` and the handle -/
def writeBlock (pData : List β) (count : UInt16) : BuffErr × UInt16 × Spsc β :=
  if count = 0 then (.inval, 0, h)
  else
    let free := h.size - h.count
    if free = 0 then (.full, 0, h)
    else
      let count := if free < count then free else count
      (.ok, count, { h with buf := h.copyIn h.wPtr count pData, wPtr := h.wPtr + count })

/-- mirrors circle_fifo_buffer.c:257-298 (`fifo_uni_read_block`) and
110-148 (`fifo_read_block`): the code, what was copied to `p_data` and the handle -/
def readBlock (count : UInt16) : BuffErr × List β × Spsc β :=
  if count = 0 then (.inval, [], h)
  else if h.count = 0 then (.empty, [], h)
  else
    let count := if h.count < count then h.count else count
    (.ok, h.copyOut h.rPtr count, { h with rPtr := h.rPtr + count })

/-- mirrors circle_fifo_buffer.c:27-48 (`fifo_write_data`) -/
def writeData (data : β) : BuffErr × Spsc β :=
  if h.size ≤ h.count then (.full, h)
  else (.ok, { h with
    buf := copyTo h.buf (h.wPtr &&& h.mask).toNat [data]
    wPtr := h.wPtr + 1 })

/-- mirrors circle_fifo_buffer.c:92-108 (`fifo_read_data`) -/
def readData : BuffErr × List β × Spsc β :=
  if h.rPtr = h.wPtr then (.empty, [], h)
  else (.ok, [h.buf (h.rPtr &&& h.mask).toNat], { h with rPtr := h.rPtr + 1 })

/-- mirrors circle_fifo_buffer.c:164-176 (`fifo_isempty`) and 376-388
(`fifo_uni_isempty`) -/
def isEmpty : Bool := h.rPtr == h.wPtr

/-- mirrors circle_fifo_buffer.c:178-190 (`fifo_isfull`) and 390-402
(`fifo_uni_isfull`) -/
def isFull : Bool := h.size ≤ h.count

/-- mirrors circle_fifo_buffer.c:300-318 (`fifo_uni_write_acquire`): the
offset of the slot -/
def writeAcquire : Option Nat :=
  if h.size ≤ h.count then none else some (h.offset h.wPtr)

/-- mirrors circle_fifo_buffer.c:320-330 (`fifo_uni_write_commit`) -/
def writeCommit : Spsc β :=
  { h with wPtr := h.wPtr + 1 }

/-- mirrors circle_fifo_buffer.c:332-348 (`fifo_uni_read_peek`): the offset
of the slot -/
def readPeek : Option Nat :=
  if h.rPtr = h.wPtr then none else some (h.offset h.rPtr)

/-- mirrors circle_fifo_buffer.c:350-360 (`fifo_uni_read_release`) -/
def readRelease : Spsc β :=
  { h with rPtr := h.rPtr + 1 }

end

end Spsc

/-! ## Calls -/

abbrev Block (ι : Type*) := { l : List ι // l.length < 2 ^ 16 }

def Block.len {ι : Type*} (b : Block ι) : UInt16 :=
  .ofNat b.val.length

abbrev Item (β : Type*) (s : Nat) := { l : List β // l.length = s }

/-- What a call reports: a code, the number of items written, the cells read, a number or
a truth value. -/
inductive Out (β : Type*) where
  | code (e : BuffErr)
  | wrote (e : BuffErr) (actual : Nat)
  | read (e : BuffErr) (cells : List β)
  | count (n : Nat)
  | flag (b : Bool)

inductive FifoOp (β : Type*) where
  | writeData (data : β)
  | writeBlock (data : Block β)
  | readData
  | readBlock (len : UInt16)
  | getCount
  | isEmpty
  | isFull

def fifoStep (h : Spsc β) : FifoOp β → Out β × Spsc β
  | .writeData d => (.code (h.writeData d).1, (h.writeData d).2)
  | .writeBlock b =>
    let r := h.writeBlock b.val b.len
    (.wrote r.1 r.2.1.toNat, r.2.2)
  | .readData => (.read h.readData.1 h.readData.2.1, h.readData.2.2)
  | .readBlock n =>
    let r := h.readBlock n
    (.read r.1 r.2.1, r.2.2)
  | .getCount => (.count h.count.toNat, h)
  | .isEmpty => (.flag h.isEmpty, h)
  | .isFull => (.flag h.isFull, h)

/-- A handle with its clients: the slot the last acquire handed to the producer and whether
it was filled since, the slot the last peek handed to the consumer. -/
structure UniSys (β : Type*) where
  h : Spsc β
  slot : Option (Nat × Bool)
  peeked : Option Nat

inductive UniOp (β : Type*) (s : Nat) where
  | writeBlock (items : Block (Item β s))
  | readBlock (count : UInt16)
  | writeAcquire
  /-- the producer fills the slot it acquired -/
  | fill (item : Item β s)
  | writeCommit
  | readPeek
  /-- the consumer reads the slot it peeked at -/
  | look
  | readRelease
  | getCount
  | isEmpty
  | isFull

def bytesOf {s : Nat} (items : List (Item β s)) : List β :=
  (items.map Subtype.val).flatten

/-- One `fifo_uni_*` call. A commit is paired with the acquire before it and a release
with the peek before it (`buffer.h`): a call that breaks the pairing is not offered. -/
def uniStep {s : Nat} (u : UniSys β) : UniOp β s → Option (Out β × UniSys β)
  | .writeBlock b =>
    let r := u.h.writeBlock (bytesOf b.val) b.len
    some (.wrote r.1 r.2.1.toNat, { u with h := r.2.2, slot := none })
  | .readBlock n =>
    let r := u.h.readBlock n
    some (.read r.1 r.2.1, { u with h := r.2.2, peeked := none })
  | .writeAcquire => match u.h.writeAcquire with
    | none => some (.code .full, { u with slot := none })
    | some off => some (.code .ok, { u with slot := some (off, false) })
  | .fill item => match u.slot with
    | none => none
    | some (off, _) => some (.code .ok,
        { u with h := { u.h with buf := copyTo u.h.buf off item.val }, slot := some (off, true) })
  | .writeCommit => match u.slot with
    | some (_, true) => some (.code .ok, { u with h := u.h.writeCommit, slot := none })
    | _ => none
  | .readPeek => match u.h.readPeek with
    | none => some (.code .empty, { u with peeked := none })
    | some off => some (.code .ok, { u with peeked := some off })
  | .look => u.peeked.map fun off =>
      (.read .ok (copyFrom u.h.buf off u.h.itemSize.toNat), u)
  | .readRelease => u.peeked.map fun _ =>
      (.code .ok, { u with h := u.h.readRelease, peeked := none })
  | .getCount => some (.count u.h.count.toNat, u)
  | .isEmpty => some (.flag u.h.isEmpty, u)
  | .isFull => some (.flag u.h.isFull, u)

end MiniTree.Algorithm
