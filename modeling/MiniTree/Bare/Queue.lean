import Mathlib.Logic.Function.Basic
import MiniTree.Core.LTS
import MiniTree.Algorithm.Fifo

/-!
# The bare-metal message queue (`core/src/mini_backend_bare.c`, `core/src/event_bus.c`)

A `mini_queue` is a `fifo_spsc` of words; a message is `elements_per_item` of them. On the
bare backend a task-level call is not preempted by other tasks but an interrupt may run
between any two of its statements, so the task-level send and receive are programs whose
statements are separate steps (`Pc` is the program counter with the call's local
variables), while a send from an interrupt runs to completion (`sendInternal`).

`QueueSys.accepted` and `QueueSys.received` are history variables: for each producer the messages
whose send returned true, and the messages the receives returned.

The spinning of `mini_queue_receive` with a timeout only reads the indices, so a receive
starts here with its last `fifo_get_count`. Messages have the width of the queue, and the
handle is a live one: `mini_queue_delete` ends the history.
-/

namespace MiniTree.Bare

open MiniTree.Core Algorithm

variable {β : Type*}

inductive Producer where
  | task (n : Nat)
  | isr (n : Nat)
  deriving DecidableEq, Repr

/-- Where the task-level call stands. `s…` are the statements of `mini_queue_send_internal`
with `fifo_get_count` and `fifo_write_block`, `r…` those of `mini_queue_receive` with
`fifo_get_count` and `fifo_read_block`; each names the statement that comes next. -/
inductive Pc (β : Type*) where
  | idle
  | sCountW
  | sCountR (w : UInt16)
  | sCheck (count : UInt16)
  | sLoadR
  | sLoadW (r : UInt16)
  | sRoom (r w : UInt16)
  | sCopy (w len : UInt16)
  | sCopyRest (w len : UInt16)
  | sStore (w len : UInt16)
  | sReturn (written : UInt16)
  | rCountW
  | rCountR (w : UInt16)
  | rCheck (count : UInt16)
  | rLoadW
  | rLoadR (w : UInt16)
  | rRoom (w r : UInt16)
  | rCopy (r len : UInt16)
  | rStore (r len : UInt16) (item : List β)

/-- The queue, the task-level call in progress and the history. -/
structure QueueSys (β : Type*) where
  fifo : Spsc β
  elementsPerItem : UInt16
  pc : Pc β
  /-- the producer and the message of the send in progress -/
  sender : Producer
  item : List β
  /-- the send in progress is an `event_bus_post` -/
  viaBus : Bool
  /-- `bus.inited` with its queue, `system_os_initialized`, `bus.dropped` -/
  busInited : Bool
  osInitialized : Bool
  dropped : Nat
  accepted : Producer → List (List β)
  received : List (List β)

/-- mirrors mini_backend_bare.c:405-443 (`mini_queue_create`), past the division of
the item size by the word size; `MINI_TRAP` and `NULL` are both `none` -/
def miniQueueCreate (buf : Nat → β) (elemCount queueLen elementsPerItem : Nat) : Option (QueueSys β) :=
  if queueLen = 0 ∨ elementsPerItem = 0 then none
  else if queueLen &&& (queueLen - 1) ≠ 0 then none
  else if queueLen * elementsPerItem &&& (queueLen * elementsPerItem - 1) ≠ 0 then none
  else if elemCount < queueLen * elementsPerItem then none
  else (fifoInit buf (.ofNat (queueLen * elementsPerItem))).map fun fifo =>
    { fifo := fifo
      elementsPerItem := .ofNat elementsPerItem
      pc := .idle
      sender := .task 0
      item := []
      viaBus := false
      busInited := false
      osInitialized := false
      dropped := 0
      accepted := fun _ => []
      received := [] }

/-- mirrors mini_backend_bare.c:458-482 (`mini_queue_send_internal`), run without
interruption -/
def sendInternal (h : Spsc β) (epi : UInt16) (item : List β) : Bool × Spsc β :=
  if h.size - h.count < epi then (false, h)
  else
    let r := h.writeBlock item epi
    (r.1 = .ok ∧ r.2.1 = epi, r.2.2)

def QueueSys.accept (b : QueueSys β) (p : Producer) (item : List β) : QueueSys β :=
  { b with accepted := Function.update b.accepted p (b.accepted p ++ [item]) }

/-- A send that failed: `event_bus_post_internal` counts it, a plain send does not. -/
def QueueSys.drop (b : QueueSys β) (viaBus : Bool) : QueueSys β :=
  if viaBus then { b with dropped := b.dropped + 1 } else b

/-- mirrors mini_backend_bare.c:493-497 (`mini_queue_send_from_isr`), alone or under
`event_bus_post_from_isr` -/
def QueueSys.sendFromIsr (b : QueueSys β) (n : Nat) (item : List β) (viaBus : Bool) : QueueSys β :=
  let r := sendInternal b.fifo b.elementsPerItem item
  let b := { b with fifo := r.2 }
  if r.1 then b.accept (.isr n) item else b.drop viaBus

def QueueSys.advance (b : QueueSys β) : Option (QueueSys β) :=
  let h := b.fifo
  let epi := b.elementsPerItem
  match b.pc with
  | .idle => none
  | .sCountW => some { b with pc := .sCountR h.wPtr }
  | .sCountR w => some { b with pc := .sCheck (w - h.rPtr) }
  | .sCheck count =>
    some { b with pc := if h.size - count < epi then .sReturn 0 else .sLoadR }
  | .sLoadR => some { b with pc := .sLoadW h.rPtr }
  | .sLoadW r => some { b with pc := .sRoom r h.wPtr }
  | .sRoom r w =>
    let free := h.size - (w - r)
    some { b with pc :=
      if free = 0 then .sReturn 0 else .sCopy w (if free < epi then free else epi) }
  | .sCopy w len =>
    let toEnd := h.spaceToEnd w
    if len.toNat ≤ toEnd then
      some { b with
        fifo := { h with buf := copyTo h.buf (h.offset w) (b.item.take len.toNat) }
        pc := .sStore w len }
    else
      some { b with
        fifo := { h with buf := copyTo h.buf (h.offset w) (b.item.take toEnd) }
        pc := .sCopyRest w len }
  | .sCopyRest w len =>
    let toEnd := h.spaceToEnd w
    some { b with
      fifo := { h with buf := copyTo h.buf 0 ((b.item.drop toEnd).take (len.toNat - toEnd)) }
      pc := .sStore w len }
  | .sStore w len => some { b with fifo := { h with wPtr := w + len }, pc := .sReturn len }
  | .sReturn written =>
    let b := { b with pc := .idle }
    some (if written = epi then b.accept b.sender b.item else b.drop b.viaBus)
  | .rCountW => some { b with pc := .rCountR h.wPtr }
  | .rCountR w => some { b with pc := .rCheck (w - h.rPtr) }
  | .rCheck count => some { b with pc := if count < epi then .idle else .rLoadW }
  | .rLoadW => some { b with pc := .rLoadR h.wPtr }
  | .rLoadR w => some { b with pc := .rRoom w h.rPtr }
  | .rRoom w r =>
    let count := w - r
    some { b with pc :=
      if count = 0 then .idle else .rCopy r (if count < epi then count else epi) }
  | .rCopy r len => some { b with pc := .rStore r len (h.copyOut r len) }
  | .rStore r len item =>
    let b := { b with fifo := { h with rPtr := r + len }, pc := .idle }
    some (if len = epi then { b with received := b.received ++ [item] } else b)

/-- mirrors core/include/event_bus.h (`struct event`) as the words of a message -/
def event (id arg : β) : List β := [id, arg]

inductive Label (β : Type*) where
  /-- `mini_queue_send` by task `n` -/
  | send (n : Nat) (item : List β)
  /-- `event_bus_post` by task `n` -/
  | post (n : Nat) (id arg : β)
  /-- `mini_queue_send_from_isr` in handler `n` -/
  | sendFromIsr (n : Nat) (item : List β)
  /-- `event_bus_post_from_isr` in handler `n` -/
  | postFromIsr (n : Nat) (id arg : β)
  /-- `mini_queue_receive` -/
  | receive
  /-- the next statement of the task-level call -/
  | advance
  /-- `event_bus_init` on this queue, and the end of `system_pre_os_init` -/
  | busInit
  | osInit

/-- A task-level send enters `mini_queue_send_internal`. -/
def QueueSys.begin (b : QueueSys β) (n : Nat) (item : List β) (viaBus : Bool) : Option (QueueSys β) :=
  match b.pc with
  | .idle =>
    if item.length = b.elementsPerItem.toNat then
      some { b with pc := .sCountW, sender := .task n, item := item, viaBus := viaBus }
    else none
  | _ => none

/-- mirrors event_bus.c:207-234 (`event_bus_post_internal`): `MINI_ERR_AGAIN` while
the bus is not ready, else the send -/
def QueueSys.postInternal (b : QueueSys β) (send : Option (QueueSys β)) : Option (QueueSys β) :=
  if b.busInited = false ∨ b.osInitialized = false then some b else send

/-- One step: a call begins, a statement of the task-level call, or a whole interrupt. -/
def step (b : QueueSys β) : Label β → Option (QueueSys β)
  | .send n item => b.begin n item false
  | .post n id arg => match b.pc with
    | .idle => b.postInternal (b.begin n (event id arg) true)
    | _ => none
  | .sendFromIsr n item =>
    if item.length = b.elementsPerItem.toNat then some (b.sendFromIsr n item false) else none
  | .postFromIsr n id arg => b.postInternal <|
    if (event id arg).length = b.elementsPerItem.toNat then
      some (b.sendFromIsr n (event id arg) true)
    else none
  | .receive => match b.pc with
    | .idle => some { b with pc := .rCountW }
    | _ => none
  | .advance => b.advance
  | .busInit => some { b with busInited := true }
  | .osInit => some { b with osInitialized := true }

def bare (β : Type*) : LTS (QueueSys β) (Label β) :=
  .ofFn (fun b => ∃ buf elemCount queueLen elementsPerItem,
    miniQueueCreate buf elemCount queueLen elementsPerItem = some b) step

end MiniTree.Bare
