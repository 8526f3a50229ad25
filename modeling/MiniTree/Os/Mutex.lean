import MiniTree.Os.Schedule

/-!
# Waiting and mutexes (`schedule.c`, `semaphore.c`, `obj.h`, `mutex.c`)

Parking and waking, the object header, priority inheritance and the critical
sections of `mini_os_mutex_lock`, `mini_os_mutex_unlock` and
`mini_os_mutex_delete`. Each definition `lock…`, `unlock…` is one critical
section of the source, so any other thread, the SysTick handler or a context
switch may come between two of them. Sources: `lib/mini-os/src`, `lib/mini-os/inc`.

`mutexPropagate` reads the wait lists and the ownership and writes the
scheduler's data only, so it returns a `Sched`.
-/

namespace MiniTree.Os

open Function

/-! ## Field updates -/

namespace Sync

section
variable (y : Sync) (m : Mid) (t : Tid)

def modW (f : SyncTcb → SyncTcb) : Sync :=
  { y with wait := update y.wait t (f (y.wait t)) }

def modM (f : Mutex → Mutex) : Sync :=
  { y with mutex := update y.mutex m (f (y.mutex m)) }

/-- `mini_os_list_remove(&thread->wait_node)` -/
def waitUnlink : Sync :=
  { y with waiters := fun w => (y.waiters w).erase t }

/-- `mini_os_list_tail(&thread->wait_node, wait_list)` -/
def waitTail (w : WaitId) : Sync :=
  { y with waiters := update y.waiters w (y.waiters w ++ [t]) }

/-- `mini_os_list_tail(&mutex->hold_node, &thread->hold_list)`; the history
variable records the lock. -/
def hold : Sync :=
  y.modW t fun x => { x with holdList := x.holdList ++ [m], locks := x.locks ++ [m] }

/-- `mini_os_list_remove(&mutex->hold_node)` -/
def unhold : Sync :=
  { y with wait := fun t => { y.wait t with holdList := (y.wait t).holdList.erase m } }

/-- The history variable: `t` unlocked `m` for the last time. -/
def endLock : Sync :=
  y.modW t fun x => { x with locks := x.locks.erase m }

/-- The history variable: `m` was force-released. -/
def endLocks : Sync :=
  { y with wait := fun t => { y.wait t with locks := (y.wait t).locks.erase m } }

end

end Sync

/-! ## Object header (`inc/obj.h`) -/

/-- mirrors obj.h:166-177 (`mini_os_obj_acquire`) -/
def objAcquire (o : Obj) : Err × Obj :=
  if o.destroy then (.reject, o) else (.ok, { o with ref := (o.ref + 1) % 256 })

/-- The reference count after `mini_os_obj_release` or the creator's drop. -/
def objDrop (o : Obj) : Obj :=
  { o with ref := o.ref - 1 }

section
variable (mx : Mutex) (y : Sync) (t : Tid)

/-- mirrors obj.h:153-159 (`mini_os_obj_free_storage`) on a mutex:
the heap keeps the bytes, caller storage is cleared -/
def mutexFreeStorage : Mutex :=
  if mx.obj.heapOwned then { mx with reclaimed := true } else .zero

/-- mirrors obj.h:187-199 (`mini_os_obj_release`) on `mutex->obj` -/
def mutexObjRelease : Mutex :=
  let mx := { mx with obj := objDrop mx.obj }
  if mx.obj.ref = 0 ∧ mx.obj.destroy then mutexFreeStorage mx else mx

/-- mirrors obj.h:212-226 (`mini_os_obj_request_destroy`) on
`mutex->obj` -/
def mutexRequestDestroy : Mutex :=
  let mx := { mx with obj := objDrop { mx.obj with destroy := true } }
  if 0 < mx.obj.ref then mx else mutexFreeStorage mx

/-- `mini_os_obj_release` on a recorded reference. The header of an embedded
semaphore is never destroyed, and the other sync objects are not modelled. -/
def refRelease : RefId → Sync
  | .mutex m => y.modM m mutexObjRelease
  | .mutexSem m => y.modM m fun mx => { mx with semObj := objDrop mx.semObj }
  | .obj _ => y

/-- mirrors schedule.c:869-878 (`mini_os_sync_wait_ref_push`);
`MINI_OS_THREAD_WAIT_REF_MAX` is 2 -/
def syncWaitRefPush (r : RefId) : Sync :=
  if 2 ≤ (y.wait t).waitRefs.length then y
  else y.modW t fun x => { x with waitRefs := r :: x.waitRefs }

/-- mirrors schedule.c:880-885 (`mini_os_sync_wait_ref_pop`) -/
def syncWaitRefPop : Sync :=
  y.modW t fun x => { x with waitRefs := x.waitRefs.tail }

/-- mirrors schedule.c:887-899 (`mini_os_sync_wait_ref_drop_all`) -/
def syncWaitRefDropAll : Sync :=
  (y.wait t).waitRefs.foldl refRelease (y.modW t fun x => { x with waitRefs := [] })

end

/-! ## Parking and waking -/

/-- mirrors schedule.c:829-858 (`mini_os_sync_wait_park` up to the
yield), past its argument checks -/
def syncWaitPark (c : Cfg) (k : Kernel) (t : Tid) (w : WaitId) (timeout : BitVec 32)
    (ref : RefId) : Kernel :=
  let s := removeThreadFromReadyRunningList c k.toSched t
  let s := s.modT t fun x => { x with state := .blocked }
  let y := k.toSync.modW t fun x => { x with waitList := some w, waitStatus := false }
  let y := (syncWaitRefPush y t ref).waitTail t w
  { k with
    toSched := if timeout = -1 then s else wheelInsert c s t timeout.toNat
    toSync := y }

/-- mirrors schedule.c:860-866: the result of a park is consumed by
the woken thread -/
def syncWaitDone (k : Kernel) (t : Tid) : Err × Kernel :=
  let ret := if (k.wait t).waitStatus then Err.ok else Err.timeout
  let y := k.toSync.modW t fun x => { x with waitStatus := true }
  (ret, { k with toSync := syncWaitRefPop y t })

/-- mirrors schedule.c:901-912 (`mini_os_sync_wake_thread`) -/
def syncWakeThread (c : Cfg) (k : Kernel) (t : Tid) (succeeded : Bool) : Kernel :=
  let y := (k.toSync.waitUnlink t).modW t fun x =>
    { x with waitList := none, waitStatus := succeeded }
  let s := if (k.thr t).wheelSlot < c.tickWheel then wheelRemove c k.toSched t else k.toSched
  { k with toSched := addThreadToReadyRunningList c s t, toSync := y }

/-! ## Priority inheritance -/

section
variable (c : Cfg) (y : Sync) (s : Sched)

/-- mirrors mutex.c:64-77 (`mini_os_mutex_highest_waiter`) -/
def mutexHighestWaiter (m : Mid) : Nat :=
  (y.waiters (.mutex m)).foldl (fun highest w => min highest (s.thr w).priority) c.priority

/-- mirrors mutex.c:85-99 (`mini_os_mutex_required_priority`) -/
def mutexRequiredPriority (t : Tid) : Nat :=
  (y.wait t).holdList.foldl (fun required m => min required (mutexHighestWaiter c y s m))
    (s.thr t).basePriority

/-- The earlier of two deadlines, 0 meaning none. -/
def earlierDeadline (required deadline : BitVec 32) : BitVec 32 :=
  if deadline ≠ 0 ∧ (required = 0 ∨ deadlineBefore deadline required) then deadline else required

/-- mirrors mutex.c:111-125 (`mini_os_mutex_earliest_waiter_deadline`) -/
def mutexEarliestWaiterDeadline (m : Mid) : BitVec 32 :=
  (y.waiters (.mutex m)).foldl (fun e w => earlierDeadline e (effectiveDeadline (s.thr w))) 0

/-- mirrors mutex.c:137-151 (`mini_os_mutex_required_deadline`) -/
def mutexRequiredDeadline (t : Tid) : BitVec 32 :=
  (y.wait t).holdList.foldl (fun e m => earlierDeadline e (mutexEarliestWaiterDeadline y s m)) 0

/-- `waited = thread->wait_mutex` with the stale test: the mutex the thread is
really parked on. -/
def waitedMutex (t : Tid) : Option Mid :=
  match (y.wait t).waitMutex with
  | some m => if (y.wait t).waitList = some (.mutex m) then some m else none
  | none => none

/-- mutex.c:185-186: the priority is applied if it differs -/
def applyPriority (t : Tid) (required : Nat) : Sched :=
  if required ≠ (s.thr t).priority then threadPriorityApply c s t required else s

/-- mutex.c:194-195: the deadline is applied if it differs -/
def applyDeadline (t : Tid) (required : BitVec 32) : Sched :=
  if required ≠ (s.thr t).dlDeadlineInherit then threadDeadlineApply c s t required else s

/-- One round of the loop of `mini_os_mutex_propagate`: the thread's effective
priority and inherited deadline, and what travels on to the next owner. -/
def propagateOne (t : Tid) (extra : Nat)
    (extraDeadline : BitVec 32) : Sched × Nat × BitVec 32 :=
  let required := min (mutexRequiredPriority c y s t) extra
  let s := applyPriority c s t required
  if c.edf ∨ c.deadline then
    let deadline := earlierDeadline (mutexRequiredDeadline y s t) extraDeadline
    (applyDeadline c s t deadline, required, deadline)
  else (s, required, extraDeadline)

/-- mirrors mutex.c:173-209 (`mini_os_mutex_propagate`); the loop
bound is the first argument -/
def propagateLoop (c : Cfg) (y : Sync) : Nat → Sched → Option Tid → Nat → BitVec 32 → Sched
  | 0, s, _, _, _ => s
  | _ + 1, s, none, _, _ => s
  | n + 1, s, some t, extra, extraDeadline =>
    let r := propagateOne c y s t extra extraDeadline
    match waitedMutex y t with
    | none => r.1
    | some m => propagateLoop c y n r.1 (y.mutex m).owner r.2.1 r.2.2

def mutexPropagate (t : Option Tid) (extra : Nat)
    (extraDeadline : BitVec 32) : Sched :=
  propagateLoop c y c.piChainMax s t extra extraDeadline

/-- mirrors mutex.c:546-556 (`mini_os_mutex_priority_recompute`) -/
def mutexPriorityRecompute (k : Kernel) (t : Tid) : Kernel :=
  { k with toSched := mutexPropagate c k.toSync k.toSched (some t) c.priority 0 }

/-- `MINI_OS_MUTEX_DEADLINE_OF` -/
def mutexDeadlineOf (x : Tcb) : BitVec 32 :=
  if c.edf ∨ c.deadline then effectiveDeadline x else 0

end

/-! ## Lock -/

section
variable (c : Cfg) (k : Kernel) (t : Tid)

def Kernel.setCall (call : Call) : Kernel :=
  { k with toSync := k.toSync.modW t fun x => { x with call := call } }

section
variable (m : Mid) (timeout : BitVec 32) (ret : Err)

/-- mutex.c:342-344: the reference is taken, or the call returns -/
def lockBegin : Kernel :=
  let r := objAcquire (k.mutex m).obj
  match r.1 with
  | .ok => { k with toSync := k.toSync.modM m fun mx => { mx with obj := r.2 } }.setCall t
      (.lockEnter m timeout)
  | _ => k

/-- `mutex->owner = current; mutex->depth = 1u; mini_os_list_tail(&mutex->hold_node, …)` -/
def takeOwnership (y : Sync) (m : Mid) (t : Tid) : Sync :=
  (y.modM m fun mx => { mx with owner := some t, depth := 1 }).hold m t

/-- mirrors mutex.c:346-404: the first critical section -/
def lockFirst : Kernel :=
  let mx := k.mutex m
  if 0 < mx.count then
    let y := k.toSync.modM m fun mx => { mx with count := mx.count - 1 }
    { k with toSync := takeOwnership y m t }.setCall t (.lockRelease m .ok)
  else if mx.owner = some t then
    if mx.isRecursive = false ∨ mx.depth = 255 then k.setCall t (.lockRelease m .busy)
    else { k with toSync := k.toSync.modM m fun mx => { mx with depth := mx.depth + 1 } }.setCall t
      (.lockRelease m .ok)
  else if timeout = 0 then k.setCall t (.lockRelease m .again)
  else
    let k := match mx.owner with
      | some o =>
        { k with
          toSched := mutexPropagate c
            (k.toSync.modW t fun x => { x with waitMutex := some m }) k.toSched (some o)
            (k.thr t).priority (mutexDeadlineOf c (k.thr t))
          toSync := k.toSync.modW t fun x => { x with waitMutex := some m } }
      | none => k
    { k with toSync := syncWaitRefPush k.toSync t (.mutex m) }.setCall t (.lockTake m timeout)

/-- semaphore.c:291-293: the reference on the embedded semaphore -/
def lockSemAcquire : Kernel :=
  let r := objAcquire (k.mutex m).semObj
  match r.1 with
  | .ok => { k with toSync := k.toSync.modM m fun mx => { mx with semObj := r.2 } }.setCall t
      (.lockWait m timeout)
  | e => k.setCall t (.lockExit m e)

/-- mirrors semaphore.c:295-322: take the unit or park -/
def lockSemTake : Kernel :=
  if 0 < (k.mutex m).count then
    { k with toSync := k.toSync.modM m fun mx => { mx with count := mx.count - 1 } }.setCall t
      (.lockTaken m .ok)
  else if timeout = 0 then k.setCall t (.lockTaken m .again)
  else (syncWaitPark c k t (.mutex m) timeout (.mutexSem m)).setCall t (.lockParked m)

/-- schedule.c:860-866: back from the park -/
def lockUnparked : Kernel :=
  let r := syncWaitDone k t
  r.2.setCall t (.lockTaken m r.1)

/-- semaphore.c:324: the reference on the embedded semaphore is dropped -/
def lockSemRelease : Kernel :=
  { k with toSync := refRelease k.toSync (.mutexSem m) }.setCall t (.lockExit m ret)

/-- mirrors mutex.c:409-429: the last critical section -/
def lockLast : Kernel :=
  let parkedOn := (k.wait t).waitMutex
  let y := (syncWaitRefPop k.toSync t).modW t fun x => { x with waitMutex := none }
  let k := match ret with
    | .ok =>
      let y := takeOwnership y m t
      { k with toSync := y, toSched := mutexPropagate c y k.toSched (some t) c.priority 0 }
    | .timeout =>
      if parkedOn = some m then
        { k with toSync := y, toSched := mutexPropagate c y k.toSched (y.mutex m).owner c.priority 0 }
      else { k with toSync := y }
    | _ => { k with toSync := y }
  k.setCall t (.lockRelease m ret)

/-- mutex.c:431: the reference on the mutex is dropped and the call returns -/
def lockEnd : Kernel :=
  { k with toSync := refRelease k.toSync (.mutex m) }.setCall t .none

end

end

/-! ## Unlock -/

/-- mirrors mutex.c:443-461 -/
def unlockFirst (c : Cfg) (k : Kernel) (t : Tid) (m : Mid) : Kernel :=
  let mx := k.mutex m
  if mx.owner ≠ some t then k
  else if (mx.depth + 255) % 256 ≠ 0 then
    { k with toSync := k.toSync.modM m fun mx => { mx with depth := (mx.depth + 255) % 256 } }
  else
    let y := ((k.toSync.unhold m).endLock m t).modM m fun mx => { mx with depth := 0, owner := none }
    { k with
      toSync := y
      toSched := mutexPropagate c y k.toSched (some t) c.priority 0 }.setCall t (.unlockGive m)

/-- mirrors semaphore.c:330-355 (`mini_os_semaphore_give`) -/
def unlockGive (c : Cfg) (k : Kernel) (t : Tid) (m : Mid) : Kernel :=
  let k := match k.waiters (.mutex m) with
    | w :: _ => syncWakeThread c k w true
    | [] =>
      if (k.mutex m).maxCount ≤ (k.mutex m).count then k
      else { k with toSync := k.toSync.modM m fun mx => { mx with count := mx.count + 1 } }
  k.setCall t .none

/-! ## Force-release and deletion -/

section
variable (c : Cfg) (k : Kernel) (m : Mid)

/-- mirrors mutex.c:221-240 (`mini_os_mutex_kill_waiters`): a waiter
of a mutex that is not armed for the TIMEOUT flavour is woken with success, for
the caller to test again -/
def mutexKillWaiters : Kernel :=
  let reportDead := !(k.mutex m).obj.timeout
  (k.waiters (.mutex m)).foldl (fun k w =>
    syncWakeThread c
      { k with toSync := k.toSync.modW w fun x => { x with waitMutex := none } } w reportDead) k

/-- One mutex of the loop of `mini_os_mutex_kill_held`. -/
def mutexKillOne : Kernel :=
  let k := mutexKillWaiters c k m
  { k with toSync := ((k.toSync.unhold m).endLocks m).modM m fun mx =>
      { mx with owner := none, depth := 0, count := mx.maxCount } }

/-- mirrors mutex.c:558-583 (`mini_os_mutex_kill_held`) -/
def mutexKillHeld (t : Tid) : Kernel := (k.wait t).holdList.foldl (mutexKillOne c) k

/-- The tests of `mini_os_mutex_delete_common` that refuse, in its order. -/
def mutexDeleteCheck (isStatic : Bool) : Err :=
  let mx := k.mutex m
  if mx.obj.heapOwned = isStatic then .notsupp
  else if 1 < mx.obj.ref ∧ mx.obj.kill = false then .reject
  else if mx.count = 0 ∧ mx.owner = none ∧ k.waiters (.mutex m) = [] then .reject
  else if (k.waiters (.mutex m) ≠ [] ∨ mx.owner ≠ none) ∧ mx.obj.kill = false then .reject
  else .ok

/-- mirrors mutex.c:605-659 (`mini_os_mutex_delete_common`) -/
def mutexDeleteCommon (isStatic : Bool) : Err × Kernel :=
  match mutexDeleteCheck k m isStatic with
  | .ok =>
    let k :=
      if k.waiters (.mutex m) ≠ [] ∨ (k.mutex m).owner ≠ none then
        let k := mutexKillWaiters c k m
        let owner := (k.mutex m).owner
        let y := ((k.toSync.unhold m).endLocks m).modM m fun mx =>
          { mx with owner := none, depth := 0 }
        { k with toSync := y, toSched := mutexPropagate c y k.toSched owner c.priority 0 }
      else k
    (.ok, { k with toSync := k.toSync.modM m mutexRequestDestroy })
  | e => (e, k)

/-- mirrors mutex.c:536-544 (`mini_os_mutex_enable_kill`) -/
def mutexEnableKill : Kernel :=
  { k with toSync := k.toSync.modM m fun mx =>
      { mx with obj := { mx.obj with kill := true, timeout := true } } }

end

end MiniTree.Os
