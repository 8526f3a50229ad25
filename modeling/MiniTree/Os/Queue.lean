import MiniTree.Core.Bytes
import MiniTree.Core.LTS
import MiniTree.Core.RingBuffer
import MiniTree.Os.Wait

/-!
# Message queues (`lib/mini-os/src/queue.c`)

One queue, used by any number of threads and by interrupts, with the deletion of the queue
and the suspension and deletion of its users. A label is a critical section; `tick` is the
SysTick handler. `mini_os_queue_send` and `mini_os_queue_receive` have the same loop and are
one definition over `QueueOp`: each waits on its own list and wakes the other one.
Sources: `lib/mini-os/inc`.

A woken waiter gets no message and no slot: it runs its loop again and may find that
another thread was faster.

History variables, read by no modelled function: `accepted` and `delivered` list the
messages with the calls that put them in and took them out, `returns` what the finished
calls reported, `woken` the threads `mini_os_queue_wake_one` released and that have not run
their loop since, `checked` the threads between the two critical sections of
`mini_os_queue_release`, `poolFrees` and `descFrees` count the frees of the two heap blocks.
A call is named by its caller and the number of the caller's calls so far.

Left out: names, NULL arguments, the size test of `mini_os_queue_create_static`, the queries
`mini_os_queue_is_empty`, `_is_full` and `_get_depth`, and the caller's yield after a wake.
A handle is not used again after the queue's storage was given back.
-/

namespace MiniTree.Os

open MiniTree.Core Function

/-- The queue's wait lists, `send_list` and `receive_list`. -/
inductive Side where
  | send | receive
  deriving DecidableEq, Repr

inductive QueueOp where
  | send (msg : Bytes)
  | receive
  deriving DecidableEq, Repr

def QueueOp.side : QueueOp → Side
  | .send _ => .send
  | .receive => .receive

/-- mirrors queue.h:26-38 (`mini_os_queue_t`), the pool behind `msg_base` included -/
structure MsgQueue where
  msgSize : Nat
  maxDepth : Nat
  depth : Nat
  writeIdx : Nat
  readIdx : Nat
  obj : Obj
  pool : Nat → UInt8

namespace MsgQueue

section
variable (q : MsgQueue) (msg : Bytes) (idx : Nat)

/-- mirrors queue.c:27 (`mini_os_queue_slot_at`), as an offset in the pool -/
def slotAt : Nat := idx * q.msgSize

/-- mirrors queue.c:41-54 (`mini_os_queue_init`) -/
def queueInit (msgSize depth : Nat) (pool : Nat → UInt8) (heapOwned : Bool) : MsgQueue where
  msgSize := msgSize
  maxDepth := depth
  depth := 0
  writeIdx := 0
  readIdx := 0
  obj := objInit heapOwned
  pool := pool

/-- The next slot index; it wraps at `max_depth`. -/
def nextIdx : Nat :=
  if q.maxDepth ≤ idx + 1 then 0 else idx + 1

/-- mirrors queue.c:260-264: a message goes into the pool -/
def put : MsgQueue :=
  { q with
    pool := copyTo q.pool (q.slotAt q.writeIdx) msg
    writeIdx := q.nextIdx q.writeIdx
    depth := q.depth + 1 }

/-- mirrors queue.c:346-350: the oldest message -/
def front : Bytes := copyFrom q.pool (q.slotAt q.readIdx) q.msgSize

def drop : MsgQueue :=
  { q with readIdx := q.nextIdx q.readIdx, depth := q.depth - 1 }

/-- What the loop's critical section tests: a free slot, or a message. -/
def Ready : QueueOp → Prop
  | .send _ => q.depth < q.maxDepth
  | .receive => 0 < q.depth

end

instance (q : MsgQueue) (op : QueueOp) : Decidable (q.Ready op) := by
  cases op <;> exact inferInstanceAs (Decidable (_ < _))

end MsgQueue

inductive Caller where
  | thread (t : Tid)
  | isr
  deriving DecidableEq, Repr

abbrev CallId := Caller × Nat

/-- Where a send or receive stands between two critical sections. -/
inductive QueuePc where
  | idle
  /-- the reference is held, the deadline is computed next -/
  | entered (op : QueueOp) (timeout : UInt32) (inThread : Bool)
  /-- the loop's critical section is next -/
  | loop (op : QueueOp) (timeout deadline : UInt32) (inThread : Bool)
  | parked (op : QueueOp) (timeout deadline : UInt32)
  /-- the first critical section of `mini_os_queue_release` is next -/
  | leave (op : QueueOp) (ret : Err) (out : Bytes)
  /-- `mini_os_obj_release` is next -/
  | release (op : QueueOp) (ret : Err) (out : Bytes)
  deriving DecidableEq, Repr

/-- What a finished call reported; `out` is the message buffer of a receive. -/
structure Return where
  call : CallId
  op : QueueOp
  ret : Err
  out : Bytes
  deriving DecidableEq, Repr

structure QueueSys where
  q : MsgQueue
  waits : Waits Side
  globalTick : UInt32
  pc : Tid → QueuePc
  nth : Caller → Nat
  accepted : List (CallId × Bytes)
  delivered : List (CallId × Bytes)
  returns : List Return
  woken : Side → List Tid
  checked : List Tid
  poolFrees : Nat
  descFrees : Nat

namespace QueueSys

/-- mirrors queue.c:136-157 (`mini_os_queue_create`) and 159-166
(`mini_os_queue_create_static`), over a pool with any contents -/
def queueCreate (msgSize depth : Nat) (pool : Nat → UInt8) (heapOwned : Bool) : Option QueueSys :=
  if msgSize = 0 ∨ depth = 0 then none
  else some
    { q := .queueInit msgSize depth pool heapOwned
      waits := .init
      globalTick := 0
      pc := fun _ => .idle
      nth := fun _ => 0
      accepted := []
      delivered := []
      returns := []
      woken := fun _ => []
      checked := []
      poolFrees := 0
      descFrees := 0 }

/-! ## History -/

section
variable (s : QueueSys) (c : Caller) (t : Tid)

/-- The call the caller is in, or made last. -/
def call : CallId := (c, s.nth c)

def nextCall : QueueSys :=
  { s with nth := update s.nth c (s.nth c + 1) }

def report (op : QueueOp) (ret : Err) (out : Bytes) : QueueSys :=
  { s with returns := s.returns ++ [⟨s.call c, op, ret, out⟩] }

/-- The thread runs its loop's critical section. -/
def rerun : QueueSys :=
  { s with woken := fun i => (s.woken i).erase t }

def setPc (p : QueuePc) : QueueSys :=
  { s with pc := update s.pc t p }

end

/-! ## Send and receive -/

/-- `mini_os_queue_wake_one` on one of the queue's lists -/
def wakeOne (s : QueueSys) (i : Side) : QueueSys :=
  match s.waits.wakeOne i with
  | (some t, w) => { s with waits := w, woken := update s.woken i (s.woken i ++ [t]) }
  | (none, _) => s

section
variable (s : QueueSys) (t : Tid) (op : QueueOp)

/-- mirrors queue.c:260-265, 346-351, 414-419 and 437-442: the message
moves and the oldest waiter of the other side is woken; the result is the receive's buffer -/
def perform (c : Caller) : QueueOp → Bytes × QueueSys
  | .send msg =>
    ([], { s with q := s.q.put msg, accepted := s.accepted ++ [(s.call c, msg)] }.wakeOne .receive)
  | .receive =>
    let out := s.q.front
    (out, { s with q := s.q.drop, delivered := s.delivered ++ [(s.call c, out)] }.wakeOne .send)

/-- mirrors schedule.c:1027-1034 (`mini_os_tick_until`) -/
def tickUntil (deadline : UInt32) : UInt32 :=
  let left := deadline - s.globalTick
  if left = 0 ∨ 0x80000000 ≤ left then 0 else left

/-- mirrors queue.c:229-239 and 315-325: the reference of a call -/
def callBegin (timeout : UInt32) (inThread : Bool) : QueueSys :=
  let s := s.nextCall (.thread t)
  match objAcquire s.q.obj with
  | (.ok, obj) => { s with q := { s.q with obj := obj } }.setPc t (.entered op timeout inThread)
  | (err, _) => s.report (.thread t) op err []

/-- mirrors queue.c:240-246 and 326-332: the deadline; `mini_os_tick_t` is signed -/
def callDeadline (timeout : UInt32) (inThread : Bool) : QueueSys :=
  let deadline := if 0 < timeout.toInt32 ∧ timeout ≠ waitForever then s.globalTick + timeout else 0
  s.setPc t (.loop op timeout deadline inThread)

/-- The park of the loop, with the time that is left. -/
def callPark (timeout deadline ticks : UInt32) : QueueSys :=
  { s with waits := s.waits.syncWaitPark t op.side ticks }.setPc t (.parked op timeout deadline)

/-- mirrors queue.c:250-309 and 336-395: one pass of the loop -/
def callLoop (timeout deadline : UInt32)
    (inThread : Bool) : QueueSys :=
  let s := s.rerun t
  if s.q.obj.destroy then s.setPc t (.leave op .dead [])
  else if s.q.Ready op then
    let r := s.perform (.thread t) op
    r.2.setPc t (.leave op .ok r.1)
  else if timeout = 0 then s.setPc t (.leave op .again [])
  else if inThread = false then s.setPc t (.leave op .inval [])
  else if timeout = waitForever then s.callPark t op timeout deadline timeout
  else if s.tickUntil deadline = 0 then s.setPc t (.leave op .timeout [])
  else s.callPark t op timeout deadline (s.tickUntil deadline)

/-- A pass of the loop fails, moves its message or parks. -/
theorem callLoop_cases {P : QueueSys → Prop} {timeout deadline : UInt32} {inThread : Bool}
    (hfail : ∀ ret ≠ .ok, s.q.obj.destroy = true ∨ ¬ s.q.Ready op →
      P ((s.rerun t).setPc t (.leave op ret [])))
    (hready : s.q.Ready op → P (((s.rerun t).perform (.thread t) op).2.setPc t
      (.leave op .ok ((s.rerun t).perform (.thread t) op).1)))
    (hpark : ¬ s.q.Ready op → ∀ ticks, P ((s.rerun t).callPark t op timeout deadline ticks)) :
    P (s.callLoop t op timeout deadline inThread) := by
  unfold callLoop
  dsimp only
  split
  · exact hfail _ (by simp) (.inl (by assumption))
  split
  · exact hready (by assumption)
  have hno : ¬ s.q.Ready op := by assumption
  have hfail : ∀ ret ≠ .ok, P ((s.rerun t).setPc t (.leave op ret [])) :=
    fun ret h => hfail ret h (.inr hno)
  repeat' split
  all_goals first | exact hfail _ (by simp) | exact hpark hno _

/-- Back from the park: the loop goes on, or the call times out. -/
def callUnparked (timeout deadline : UInt32) : QueueSys :=
  { s with waits := s.waits.syncWaitDone t }.setPc t
    (if (s.waits.thr t).waitStatus then .loop op timeout deadline true else .leave op .timeout [])

/-- mirrors queue.c:401-422 (`mini_os_queue_send_isr`) and 424-445
(`mini_os_queue_receive_isr`) -/
def isrCall : QueueSys :=
  let s := s.nextCall .isr
  if s.q.Ready op then
    let r := s.perform .isr op
    r.2.report .isr op .ok r.1
  else s.report .isr op .again []

end

/-! ## Teardown -/

section
variable (s : QueueSys) (t : Tid) (op : QueueOp)

/-- mirrors obj.h:153-159 (`mini_os_obj_free_storage`) on a queue -/
def freeStorage : QueueSys :=
  if s.q.obj.heapOwned then { s with descFrees := s.descFrees + 1 }
  else { s with q := { MsgQueue.queueInit 0 0 s.q.pool false with
    obj := ⟨0, false, false, false, false⟩ } }

/-- mirrors obj.h:187-199 (`mini_os_obj_release`) on a queue -/
def objRelease : QueueSys :=
  let s := { s with q := { s.q with obj := objDrop s.q.obj } }
  if s.q.obj.ref = 0 ∧ s.q.obj.destroy then s.freeStorage else s

/-- mirrors queue.c:123-134 (`mini_os_queue_release`), its first critical
section: the last user of a destroyed queue frees the pool -/
def releasePool : QueueSys :=
  if s.q.obj.ref = 1 ∧ s.q.obj.destroy ∧ s.q.obj.heapOwned then
    { s with poolFrees := s.poolFrees + 1 }
  else s

def callLeave (ret : Err) (out : Bytes) : QueueSys :=
  { s.releasePool with checked := s.checked ++ [t] }.setPc t (.release op ret out)

def callEnd (ret : Err) (out : Bytes) : QueueSys :=
  ({ s.objRelease with checked := s.checked.erase t }.setPc t .idle).report (.thread t) op ret out

/-- mirrors obj.h:212-226 (`mini_os_obj_request_destroy`) on a queue -/
def requestDestroy : QueueSys :=
  let s := { s with q := { s.q with obj := { objDrop s.q.obj with destroy := true } } }
  if 0 < s.q.obj.ref then s else s.freeStorage

/-- mirrors queue.c:97-109 (`mini_os_queue_kill_waiters`) -/
def killWaiters : QueueSys :=
  let reportDead := !s.q.obj.timeout
  { s with waits := (s.waits.syncWakeAll .send reportDead).syncWakeAll .receive reportDead }

/-- mirrors queue.c:185-215 (`mini_os_queue_delete_common`) -/
def deleteCommon (isStatic : Bool) : Err × QueueSys :=
  if (!s.q.obj.heapOwned) ≠ isStatic then (.notsupp, s)
  else if 1 < s.q.obj.ref ∧ s.q.obj.kill = false then (.reject, s)
  else
    let s := if 1 < s.q.obj.ref then s.killWaiters else s
    let s := if s.q.obj.ref = 1 ∧ isStatic = false then { s with poolFrees := s.poolFrees + 1 } else s
    (.ok, s.requestDestroy)

/-- mirrors queue.c:221-227 (`mini_os_queue_enable_kill`) -/
def enableKill : QueueSys :=
  { s with q := { s.q with obj := { s.q.obj with kill := true } } }

/-- mirrors thread.c:598-644 (`mini_os_thread_delete`) as far as this queue is
concerned: `mini_os_sync_wait_ref_drop_all` drops a recorded reference with
`mini_os_obj_release` -/
def deleteThread : QueueSys :=
  let held := (s.waits.thr t).waitRef
  let s := { s with waits := s.waits.delete t }
  if held then s.objRelease else s

end

/-! ## Steps -/

inductive Label where
  | send (t : Tid) (msg : Bytes) (timeout : UInt32) (inThread : Bool)
  | receive (t : Tid) (timeout : UInt32) (inThread : Bool)
  | cs (t : Tid)
  | sendIsr (msg : Bytes)
  | receiveIsr
  | tick
  | suspend (t : Tid)
  | resume (t : Tid)
  | deleteThread (t : Tid)
  | enableKill
  | delete (isStatic : Bool)
  deriving DecidableEq, Repr

/-- A message has the queue's message size. -/
def Fits (s : QueueSys) : QueueOp → Prop
  | .send msg => msg.length = s.q.msgSize
  | .receive => True

instance (s : QueueSys) (op : QueueOp) : Decidable (s.Fits op) := by
  cases op
  · exact inferInstanceAs (Decidable (_ = _))
  · exact inferInstanceAs (Decidable True)

def begin (s : QueueSys) (t : Tid) (op : QueueOp) (timeout : UInt32) (inThread : Bool) :
    Option QueueSys :=
  if s.pc t = .idle ∧ (s.waits.thr t).Runnable ∧ s.Fits op ∧ s.descFrees = 0 then
    some (s.callBegin t op timeout inThread)
  else none

/-- The next critical section of the call `t` is in. -/
def advance (s : QueueSys) (t : Tid) : Option QueueSys :=
  if (s.waits.thr t).Runnable then
    match s.pc t with
    | .idle => none
    | .entered op timeout inThread => some (s.callDeadline t op timeout inThread)
    | .loop op timeout deadline inThread => some (s.callLoop t op timeout deadline inThread)
    | .parked op timeout deadline => some (s.callUnparked t op timeout deadline)
    | .leave op ret out => some (s.callLeave t op ret out)
    | .release op ret out => some (s.callEnd t op ret out)
  else none

def isr (s : QueueSys) (op : QueueOp) : Option QueueSys :=
  if s.Fits op ∧ s.descFrees = 0 then some (s.isrCall op) else none

def step (s : QueueSys) : Label → Option QueueSys
  | .send t msg timeout inThread => s.begin t (.send msg) timeout inThread
  | .receive t timeout inThread => s.begin t .receive timeout inThread
  | .cs t => s.advance t
  | .sendIsr msg => s.isr (.send msg)
  | .receiveIsr => s.isr .receive
  | .tick => some { s with globalTick := s.globalTick + 1, waits := s.waits.tickDecrement }
  | .suspend t => some { s with waits := s.waits.suspend t }
  | .resume t => some { s with waits := s.waits.resume t }
  | .deleteThread t => if (s.waits.thr t).run = .deleted then none else some (s.deleteThread t)
  | .enableKill => some s.enableKill
  | .delete isStatic =>
    if s.q.obj.destroy = false ∧ s.descFrees = 0 then some (s.deleteCommon isStatic).2 else none

/-- The runs of a queue of `depth` messages of `msgSize` bytes. -/
def queue (msgSize depth : Nat) (pool : Nat → UInt8) (heapOwned : Bool) : LTS QueueSys Label :=
  .ofFn (fun s => queueCreate msgSize depth pool heapOwned = some s) step

end QueueSys

end MiniTree.Os
