import MiniTree.Core.LTS
import MiniTree.Os.Mutex

/-!
# The thread API and the kernel as a transition system (`thread.c`)

The critical sections of the thread API, the SysTick handler, and `step`: what
one label does to the kernel. Sources: `lib/mini-os/src`.

* Thread code runs only while `mini_os_current_thread` is RUNNING (`Runs`), or
  before the scheduler is started, when there is no current thread. `Label.cs`
  lets the running thread enter the next critical section of the call it is in.
* `Label.tick` is the SysTick handler, `Label.wake` an event that readies a
  thread parked on a sync object other than a mutex (a give, a send, a timer:
  from a thread or from an interrupt), `Label.switch` the PendSV handler. All
  three are enabled at every point where interrupts are, so also between the
  moment a call parks its caller and the context switch it requested.
* `mini_os_thread_resume` and `mini_os_thread_delete` test the target's state
  before they mask interrupts, so the test is a step of its own. A target whose
  storage was given back in between is left alone: its handle is stale.
* `mini_os_thread_delete` unlinks its target in one critical section and frees
  the storage behind it; the thread is gone with the critical section.
-/

namespace MiniTree.Os

open MiniTree.Core Option

/-! ## Time -/

section
variable (c : Cfg) (k : Kernel) (t : Tid)

/-- schedule.c:710-718: the node leaves its slot; a throttled DL thread starts its next
job -/
def leaveSlot (s : Sched) (t : Tid) : Sched :=
  let s₁ := (s.listRemove t).modT t fun x => { x with wheelSlot := c.tickWheel }
  if c.deadline ∧ (s.thr t).schedPolicy = .deadline ∧ (s.thr t).dlThrottled = true then
    s₁.modT t (dlNextJob s.globalTick)
  else s₁

/-- schedule.c:720-729: a sync wait ends with a timeout, a delay just ends -/
def expire : Kernel :=
  if (k.wait t).waitList ≠ none then syncWakeThread c k t false
  else { k with toSched := addThreadToReadyRunningList c k.toSched t }

/-- One node of the walk of `mini_os_tick_decrement`. -/
def tickExpire : Kernel :=
  if 0 < (k.thr t).round then
    { k with toSched := k.toSched.modT t fun x => { x with round := x.round - 1 } }
  else expire c { k with toSched := leaveSlot c k.toSched t } t

/-- mirrors schedule.c:694-731 (`mini_os_tick_decrement`) -/
def tickDecrement : Kernel :=
  let slot := (k.currentSlot + 1) % c.tickWheel
  let k := { k with currentSlot := slot }
  (k.lists (.wheel slot)).foldl (tickExpire c) k

/-- The part of the handler behind the wheel: the tick counter, then the period
boundaries and the running thread's budget. -/
def tickAccount (s : Sched) : Sched :=
  let s := { s with globalTick := s.globalTick + 1 }
  if c.deadline then dlTickDecrement c (dlReplenishDue s) else s

/-- mirrors schedule.c:970-992 (`mini_os_systick_handler`) -/
def systickHandler : Kernel :=
  let k := tickDecrement c k
  { k with toSched := tickAccount c k.toSched }

/-- mirrors schedule.c:789-802 (`mini_os_schedule_delay`) -/
def scheduleDelay (ticks : BitVec 32) : Kernel :=
  if ticks = 0 then k
  else
    { k with
      toSched := wheelInsert c (removeThreadFromReadyRunningList c k.toSched t) t ticks.toNat }

/-- mirrors schedule.c:170-175 (`mini_os_dl_report_finish`) -/
def dlReportFinish (x : Tcb) : Tcb :=
  { x with dlFinishCount := (x.dlFinishCount + 1) % 2 ^ 32 }

/-- schedule.c:664-667: the finished job is counted, a late one also as a miss -/
def dlFinish (late : Bool) (x : Tcb) : Tcb :=
  let y := if late then dlReportMiss (dlReportFinish x) else dlReportFinish x
  { y with dlJobDone := true }

/-- mirrors schedule.c:653-667 (`mini_os_deadline_job_finish` up to
the park, which is a park like any other) -/
def deadlineJobFinish : Kernel :=
  let x := k.thr t
  if x.schedPolicy ≠ .deadline then k
  else
    { k with toSched := k.toSched.modT t (dlFinish (tickUntil k.toSched x.dlDeadlineTime == 0)) }

end

/-! ## Creation -/

/-- mirrors thread.c:518-551 (`mini_os_thread_create`), the storage
provided -/
def threadCreate (c : Cfg) (k : Kernel) (priority : Nat) : Kernel :=
  if c.priority ≤ priority then k
  else
    let t := k.nThread
    let s := k.toSched.modT t fun _ => threadInit c priority
    { k with
      toSched := addThreadToReadyRunningList c s t
      toSync := k.toSync.modW t fun _ => .init
      nThread := t + 1 }

/-- mirrors thread.c:217-237 (`mini_os_deadline_thread_init`) -/
def deadlineThreadInit (now : BitVec 32) (runtime deadline period : Nat) (x : Tcb) : Tcb :=
  { x with
    schedPolicy := .deadline
    dlRunTime := runtime
    dlBudget := runtime
    dlBudgetFrac := 0
    dlDeadlineTime := now + BitVec.ofNat 32 deadline
    dlDeadlineInherit := 0
    dlPeriod := period
    dlThrottled := false
    dlJobDone := false }

/-- mirrors thread.c:197 (`mini_os_dl_params_valid`) -/
def dlParamsValid (runtime deadline period : Nat) : Prop :=
  0 < runtime ∧ runtime ≤ deadline ∧ deadline ≤ period ∧ period < 2 ^ 31
  deriving Decidable

/-- mirrors thread.c:1194-1255 (`mini_os_deadline_thread_create`) -/
def deadlineThreadCreate (c : Cfg) (k : Kernel) (runtime deadline period : Nat) : Kernel :=
  if ¬ dlParamsValid runtime deadline period then k
  else match dlBandwidthReserve k.toSched runtime period with
    | none => k
    | some s =>
      let t := k.nThread
      let s := s.modT t fun _ =>
        deadlineThreadInit s.globalTick runtime deadline period (threadInit c 0)
      { k with
        toSched := addThreadToReadyRunningList c s t
        toSync := k.toSync.modW t fun _ => .init
        nThread := t + 1 }

/-! ## Teardown -/

section
variable (c : Cfg) (k : Kernel) (t : Tid)

/-- mirrors thread.c:173-177 (`mini_os_dl_thread_release`) -/
def dlThreadRelease (s : Sched) (t : Tid) : Sched :=
  let x := s.thr t
  if c.deadline ∧ x.schedPolicy = .deadline then dlBandwidthRelease s x.dlRunTime x.dlPeriod else s

/-- mirrors thread.c:355-401 (`mini_os_thread_exit`) -/
def threadExit : Kernel :=
  let k := mutexKillHeld c k t
  let s := dlThreadRelease c (removeThreadFromReadyRunningList c k.toSched t) t
  let s := (s.modT t fun x => { x with state := .terminated }).listTail t .defunct
  { k with toSched := s }

/-- One corpse of the walk of `mini_os_thread_defunct_execute`. Nothing reads the sync
half of a TCB that was given back. -/
def reapOne (s : Sched) (t : Tid) : Sched :=
  (s.listRemove t).modT t fun _ => .free c

/-- mirrors thread.c:304-344 (`mini_os_thread_defunct_execute`) -/
def threadDefunctExecute : Kernel :=
  { k with toSched := (k.lists .defunct).foldl (reapOne c) k.toSched }

/-- The cancelled sync wait of `mini_os_thread_suspend` and
`mini_os_thread_unlink_blocked`: the thread leaves the wait list and the owner of
the mutex it was really parked on is recomputed. -/
def cancelWait (f : SyncTcb → SyncTcb) : Kernel :=
  if (k.wait t).waitList = none then k
  else
    let waited := waitedMutex k.toSync t
    let y := (k.toSync.waitUnlink t).modW t fun x =>
      f { x with waitList := none, waitMutex := none }
    let owner := waited.bind fun m => (y.mutex m).owner
    { k with toSync := y, toSched := mutexPropagate c y k.toSched owner c.priority 0 }

/-- mirrors thread.c:417-470 (`mini_os_thread_suspend`) -/
def threadSuspend : Err × Kernel :=
  match (k.thr t).state with
  | .suspended => (.ok, k)
  | .ready | .running =>
    let s := removeThreadFromReadyRunningList c k.toSched t
    (.ok, { k with toSched := s.modT t fun x => { x with state := .suspended } })
  | .blocked =>
    let resumeTime := wheelRemain c k.toSched t
    let k := { k with toSched := k.toSched.modT t fun x => { x with resumeTime := resumeTime } }
    let k := cancelWait c k t fun x => { x with waitStatus := false }
    (.ok, { k with toSched := (k.toSched.listRemove t).modT t fun x =>
      { x with wheelSlot := c.tickWheel, round := 0, state := .suspended } })
  | _ => (.busy, k)

/-- mirrors thread.c:487-500: the critical section of
`mini_os_thread_resume`; the state test is made before it -/
def threadResume : Kernel :=
  let r := (k.thr t).resumeTime
  if (0#32).slt r then
    { k with toSched := (wheelInsert c k.toSched t r.toNat).modT t fun x => { x with resumeTime := 0 } }
  else { k with toSched := addThreadToReadyRunningList c k.toSched t }

/-- mirrors thread.c:561-581 (`mini_os_thread_unlink_blocked`) -/
def threadUnlinkBlocked : Kernel :=
  let k := cancelWait c k t id
  if (k.thr t).wheelSlot < c.tickWheel then { k with toSched := wheelRemove c k.toSched t } else k

/-- The target of `mini_os_thread_delete` leaves the list it is on. -/
def threadUnlink : Kernel :=
  match (k.thr t).state with
  | .ready | .running => { k with toSched := removeThreadFromReadyRunningList c k.toSched t }
  | .blocked => threadUnlinkBlocked c k t
  | _ => k

/-- mirrors thread.c:606-640: the critical section of
`mini_os_thread_delete` and the release of the storage; the state test is made
before it -/
def threadDelete : Kernel :=
  let k := threadUnlink c k t
  let k := { k with toSync := syncWaitRefDropAll k.toSync t }
  let k := mutexKillHeld c k t
  { k with
    toSched := (dlThreadRelease c k.toSched t).modT t fun _ => .free c
    toSync := k.toSync.modW t fun _ => .init }

end

/-! ## Parameters of a thread -/

/-- mirrors thread.c:1103-1112: `mini_os_thread_set_priority` up to
the recomputation -/
def threadSetPriority (k : Kernel) (t : Tid) (priority : Nat) : Kernel :=
  { k with toSched := k.toSched.modT t fun x => { x with basePriority := priority } }

/-- thread.c:1325-1334: a deadline of 0 ends the EDF policy -/
def storeDeadline (now deadline : BitVec 32) (x : Tcb) : Tcb :=
  if deadline = 0 then { x with schedPolicy := .normal, dlDeadlineTime := 0 }
  else { x with schedPolicy := .edf, dlDeadlineTime := now + deadline }

/-- mirrors thread.c:1306-1349: `mini_os_thread_set_deadline` up to
the recomputation -/
def threadSetDeadline (c : Cfg) (k : Kernel) (t : Tid) (deadline : BitVec 32) : Kernel :=
  { k with toSched :=
      if (k.thr t).Runnable then relink c k.toSched t (storeDeadline k.globalTick deadline)
      else k.toSched.modT t (storeDeadline k.globalTick deadline) }

/-- thread.c:1417: both values are non-negative `mini_os_tick_t` -/
def dlTicksValid (runtime period : Nat) : Prop := runtime < 2 ^ 31 ∧ period < 2 ^ 31
  deriving Decidable

/-- thread.c:1436-1449, the old reservation `x` released: the new one is taken, or the
old one again when the new one does not fit -/
def dlRenegotiate (s : Sched) (t : Tid) (x : Tcb) (runtime period : Nat) : Sched :=
  let new := (dlBandwidthReserve s runtime period).map fun s₁ =>
    s₁.modT t fun x => { x with dlRunTime := runtime, dlPeriod := period }
  (new.or (dlBandwidthReserve s x.dlRunTime x.dlPeriod)).getD s

/-- mirrors thread.c:1411-1453
(`mini_os_deadline_thread_set_bandwidth`); 0 keeps a value -/
def deadlineThreadSetBandwidth (k : Kernel) (t : Tid) (runtime period : Nat) : Kernel :=
  let x := k.thr t
  let runtime := if runtime = 0 then x.dlRunTime else runtime
  let period := if period = 0 then x.dlPeriod else period
  if x.schedPolicy ≠ .deadline ∨ runtime = 0 ∨ period = 0 ∨ period < runtime then k
  else if runtime = x.dlRunTime ∧ period = x.dlPeriod then k
  else if x.state ≠ .blocked ∧ x.state ≠ .suspended then k
  else
    { k with toSched :=
        dlRenegotiate (dlBandwidthRelease k.toSched x.dlRunTime x.dlPeriod) t x runtime period }

/-! ## The transition system -/

inductive Label where
  | create (priority : Nat)
  | createDl (runtime deadline period : Nat)
  | mutexCreate (isRecursive heapOwned : Bool)
  | enableKill (m : Mid)
  | lock (m : Mid) (timeout : BitVec 32)
  | unlock (m : Mid)
  | mutexDelete (m : Mid) (isStatic : Bool)
  | cs
  | delay (ticks : BitVec 32)
  | park (n : Nat) (timeout : BitVec 32)
  | jobFinish
  | exit
  | suspend (t : Tid)
  | resume (t : Tid)
  | delete (t : Tid)
  | setPriority (t : Tid) (priority : Nat)
  | setDeadline (t : Tid) (deadline : BitVec 32)
  | setBandwidth (t : Tid) (runtime period : Nat)
  | reap
  | wake (t : Tid) (succeeded : Bool)
  | tick
  | switch
  deriving DecidableEq, Repr

section
variable (c : Cfg) (k : Kernel) (t : Tid)

/-- `t` is the thread whose code the processor executes. -/
def Runs : Prop := k.current = some (.thread t) ∧ (k.thr t).state = .running
  deriving Decidable

/-- The handle of a thread: created and not given back. -/
def Live : Prop := (k.thr t).state ≠ .invalid
  deriving Decidable

/-- The next critical section of the call the running thread is in. -/
def callStep : Call → Option Kernel
  | .none => none
  | .lockEnter m timeout => some (lockFirst c k t m timeout)
  | .lockTake m timeout => some (lockSemAcquire k t m timeout)
  | .lockWait m timeout => some (lockSemTake c k t m timeout)
  | .lockParked m => some (lockUnparked k t m)
  | .lockTaken m ret => some (lockSemRelease k t m ret)
  | .lockExit m ret => some (lockLast c k t m ret)
  | .lockRelease m _ => some (lockEnd k t m)
  | .unlockGive m => some (unlockGive c k t m)
  | .objParked _ => some ((syncWaitDone k t).2.setCall t .none)
  | .resume u => some ((if Live k u then threadResume c k u else k).setCall t .none)
  | .delete u => some ((if Live k u then threadDelete c k u else k).setCall t .none)
  | .recompute u => some ((if Live k u then mutexPriorityRecompute c k u else k).setCall t .none)

/-- What an idle running thread may start; `t` is that thread. -/
def threadStep : Label → Option Kernel
  | .lock m timeout =>
    if (k.mutex m).reclaimed then none else some (lockBegin k t m timeout)
  | .unlock m => if (k.mutex m).reclaimed then none else some (unlockFirst c k t m)
  | .mutexDelete m isStatic =>
    if (k.mutex m).reclaimed then none else some (mutexDeleteCommon c k m isStatic).2
  | .delay ticks => some (scheduleDelay c k t ticks)
  | .park n timeout =>
    if timeout = 0 then none
    else some ((syncWaitPark c k t (.obj n) timeout (.obj n)).setCall t (.objParked n))
  | .jobFinish => some (deadlineJobFinish k t)
  | .exit => some (threadExit c k t)
  | .suspend u => if Live k u then some (threadSuspend c k u).2 else none
  | .resume u =>
    if Live k u ∧ (k.thr u).state = .suspended then some (k.setCall t (.resume u)) else none
  | .delete u =>
    if Live k u ∧ u ≠ t ∧ (k.thr u).state ≠ .terminated then some (k.setCall t (.delete u))
    else none
  | .setPriority u p =>
    if Live k u ∧ p < c.priority then some ((threadSetPriority k u p).setCall t (.recompute u))
    else none
  | .setDeadline u d =>
    if Live k u ∧ c.edf ∧ (k.thr u).schedPolicy ≠ .deadline then
      some ((threadSetDeadline c k u d).setCall t (.recompute u))
    else none
  | .setBandwidth u r p =>
    if Live k u ∧ c.deadline ∧ dlTicksValid r p then
      some (deadlineThreadSetBandwidth k u r p)
    else none
  | .reap => some (threadDefunctExecute c k)
  | _ => none

/-- The running thread, if thread code is executing. -/
def running (k : Kernel) : Option Tid :=
  match k.current with
  | some (.thread t) => if (k.thr t).state = .running then some t else none
  | _ => none

def step : Label → Option Kernel
  | .tick => some (systickHandler c k)
  | .switch => some { k with toSched := (scheduleSwitch c k.toSched).2 }
  | .wake t succeeded =>
    match (k.wait t).waitList with
    | some (.obj _) => some (syncWakeThread c k t succeeded)
    | _ => none
  | .create p => if k.current = none ∨ (running k).isSome then some (threadCreate c k p) else none
  | .createDl r d p =>
    if c.deadline ∧ (k.current = none ∨ (running k).isSome) then
      some (deadlineThreadCreate c k r d p)
    else none
  | .mutexCreate isRecursive heapOwned =>
    some { k with
      toSync := k.toSync.modM k.nMutex fun _ => mutexInit isRecursive heapOwned
      nMutex := k.nMutex + 1 }
  | .enableKill m => if (k.mutex m).reclaimed then none else some (mutexEnableKill k m)
  | .cs => (running k).bind fun t => callStep c k t (k.wait t).call
  | l => (running k).bind fun t => if (k.wait t).call = .none then threadStep c k t l else none

end

/-- What a step does, one case per critical section, with what the step has tested. -/
inductive Move (c : Cfg) (k : Kernel) : Label → Kernel → Prop
  | tick : Move c k .tick (systickHandler c k)
  | switch : Move c k .switch { k with toSched := (scheduleSwitch c k.toSched).2 }
  | wake {t n b} (hw : (k.wait t).waitList = some (.obj n)) :
    Move c k (.wake t b) (syncWakeThread c k t b)
  | create {p} : Move c k (.create p) (threadCreate c k p)
  | createDl {r d p} (hc : c.deadline) : Move c k (.createDl r d p) (deadlineThreadCreate c k r d p)
  | mutexCreate {isRecursive heapOwned} : Move c k (.mutexCreate isRecursive heapOwned) { k with
      toSync := k.toSync.modM k.nMutex fun _ => mutexInit isRecursive heapOwned
      nMutex := k.nMutex + 1 }
  | enableKill {m} : Move c k (.enableKill m) (mutexEnableKill k m)
  -- the next section of the call the running thread is in
  | lockFirst {t m timeout} (hr : running k = some t) (hc : (k.wait t).call = .lockEnter m timeout) :
    Move c k .cs (lockFirst c k t m timeout)
  | lockSemAcquire {t m timeout} (hr : running k = some t)
    (hc : (k.wait t).call = .lockTake m timeout) : Move c k .cs (lockSemAcquire k t m timeout)
  | lockSemTake {t m timeout} (hr : running k = some t) (hc : (k.wait t).call = .lockWait m timeout) :
    Move c k .cs (lockSemTake c k t m timeout)
  | lockUnparked {t m} (hr : running k = some t) (hc : (k.wait t).call = .lockParked m) :
    Move c k .cs (lockUnparked k t m)
  | lockSemRelease {t m ret} (hr : running k = some t) (hc : (k.wait t).call = .lockTaken m ret) :
    Move c k .cs (lockSemRelease k t m ret)
  | lockLast {t m ret} (hr : running k = some t) (hc : (k.wait t).call = .lockExit m ret) :
    Move c k .cs (lockLast c k t m ret)
  | lockEnd {t m ret} (hr : running k = some t) (hc : (k.wait t).call = .lockRelease m ret) :
    Move c k .cs (lockEnd k t m)
  | unlockGive {t m} (hr : running k = some t) (hc : (k.wait t).call = .unlockGive m) :
    Move c k .cs (unlockGive c k t m)
  | unparked {t n} (hr : running k = some t) (hc : (k.wait t).call = .objParked n) :
    Move c k .cs ((syncWaitDone k t).2.setCall t .none)
  | resumed {t u} (hr : running k = some t) (hc : (k.wait t).call = .resume u) :
    Move c k .cs ((threadResume c k u).setCall t .none)
  | deleted {t u} (hr : running k = some t) (hc : (k.wait t).call = .delete u) :
    Move c k .cs ((threadDelete c k u).setCall t .none)
  | recomputed {t u} (hr : running k = some t) (hc : (k.wait t).call = .recompute u)
    (hl : Live k u) : Move c k .cs ((mutexPriorityRecompute c k u).setCall t .none)
  | stale {t u} (hr : running k = some t) (hc : (k.wait t).call = .resume u ∨
    (k.wait t).call = .delete u ∨ (k.wait t).call = .recompute u) : Move c k .cs (k.setCall t .none)
  -- the first section of a call the running thread makes
  | lock {t m timeout} (hr : running k = some t) (hc : (k.wait t).call = .none)
    (hm : (k.mutex m).reclaimed = false) : Move c k (.lock m timeout) (lockBegin k t m timeout)
  | unlock {t m} (hr : running k = some t) (hc : (k.wait t).call = .none) :
    Move c k (.unlock m) (unlockFirst c k t m)
  | mutexDelete {m isStatic} (hm : (k.mutex m).reclaimed = false) :
    Move c k (.mutexDelete m isStatic) (mutexDeleteCommon c k m isStatic).2
  | delay {t ticks} (hr : running k = some t) : Move c k (.delay ticks) (scheduleDelay c k t ticks)
  | park {t n timeout} (hr : running k = some t) (hc : (k.wait t).call = .none) (h0 : timeout ≠ 0) :
    Move c k (.park n timeout)
      ((syncWaitPark c k t (.obj n) timeout (.obj n)).setCall t (.objParked n))
  | jobFinish {t} (hr : running k = some t) : Move c k .jobFinish (deadlineJobFinish k t)
  | exit {t} (hr : running k = some t) : Move c k .exit (threadExit c k t)
  | suspend {u} : Move c k (.suspend u) (threadSuspend c k u).2
  | resume {t u} (hr : running k = some t) (hc : (k.wait t).call = .none) :
    Move c k (.resume u) (k.setCall t (.resume u))
  | delete {t u} (hr : running k = some t) (hc : (k.wait t).call = .none) :
    Move c k (.delete u) (k.setCall t (.delete u))
  | setPriority {t u p} (hr : running k = some t) (hc : (k.wait t).call = .none) :
    Move c k (.setPriority u p) ((threadSetPriority k u p).setCall t (.recompute u))
  | setDeadline {t u d} (hr : running k = some t) (hc : (k.wait t).call = .none)
    (hp : (k.thr u).schedPolicy ≠ .deadline) :
    Move c k (.setDeadline u d) ((threadSetDeadline c k u d).setCall t (.recompute u))
  | setBandwidth {u r p} : Move c k (.setBandwidth u r p) (deadlineThreadSetBandwidth k u r p)
  | reap : Move c k .reap (threadDefunctExecute c k)

theorem move_of_callStep {c : Cfg} {k k' : Kernel} {t : Tid} (hr : running k = some t)
    (hk : callStep c k t (k.wait t).call = some k') : Move c k .cs k' := by
  cases hc : (k.wait t).call <;> rw [hc] at hk <;>
    simp only [callStep, Option.some.injEq, reduceCtorEq] at hk <;> subst hk
  case lockEnter => exact .lockFirst hr hc
  case lockTake => exact .lockSemAcquire hr hc
  case lockWait => exact .lockSemTake hr hc
  case lockParked => exact .lockUnparked hr hc
  case lockTaken => exact .lockSemRelease hr hc
  case lockExit => exact .lockLast hr hc
  case lockRelease => exact .lockEnd hr hc
  case unlockGive => exact .unlockGive hr hc
  case objParked => exact .unparked hr hc
  case resume =>
    split
    · exact .resumed hr hc
    · exact .stale hr (.inl hc)
  case delete =>
    split
    · exact .deleted hr hc
    · exact .stale hr (.inr (.inl hc))
  case recompute =>
    split
    · exact .recomputed hr hc ‹_›
    · exact .stale hr (.inr (.inr hc))

theorem move_of_threadStep {c : Cfg} {k k' : Kernel} {t : Tid} {l : Label} (hr : running k = some t)
    (hc : (k.wait t).call = .none) (hk : threadStep c k t l = some k') : Move c k l k' := by
  unfold threadStep at hk
  cases l <;> simp only [reduceCtorEq, ite_none_right_eq_some,
    ite_none_left_eq_some, Option.some.injEq, Bool.not_eq_true] at hk
  case delay | jobFinish | exit | reap =>
    subst hk
    constructor <;> assumption
  all_goals
    obtain ⟨hl, rfl⟩ := hk
  case setDeadline => exact .setDeadline hr hc hl.2.2
  all_goals constructor <;> assumption

/-- Every step is one of the moves. -/
theorem move_of_step {c : Cfg} {k k' : Kernel} {l : Label} (hk : step c k l = some k') :
    Move c k l k' := by
  unfold step at hk
  cases l <;> simp only [ite_none_right_eq_some, ite_none_left_eq_some,
    Option.some.injEq, bind_eq_some_iff] at hk
  case cs => exact hk.elim fun t h => move_of_callStep h.1 h.2
  case wake =>
    split at hk <;> cases hk
    exact .wake ‹_›
  case tick | switch | mutexCreate =>
    subst hk
    constructor
  case create | enableKill =>
    obtain ⟨-, rfl⟩ := hk
    constructor
  case createDl =>
    obtain ⟨hc, rfl⟩ := hk
    exact .createDl hc.1
  all_goals
    obtain ⟨t, hr, hc, hk⟩ := hk
    exact move_of_threadStep hr hc hk

/-- The kernel from `mini_os_schedule_init` on. -/
def kernel (c : Cfg) : LTS Kernel Label := .ofFn (· = boot c) (step c)

theorem kernel_exec (c : Cfg) (ls : List Label) (P : Kernel → Prop) [DecidablePred P]
    (h : (LTS.exec (step c) (boot c) ls).any (P ·) = true) : ∃ k, (kernel c).Reachable k ∧ P k :=
  LTS.Reachable.of_exec _ _ _ ls P rfl h

theorem kernel_execOk (c : Cfg) (ok : Kernel → Label → Prop) [∀ k l, Decidable (ok k l)]
    (ls : List Label) (P : Kernel → Prop) [DecidablePred P]
    (h : (LTS.execOk (fun k l => decide (ok k l)) (step c) (boot c) ls).any (P ·) = true) :
    ∃ k, ((kernel c).restrict ok).Reachable k ∧ P k :=
  LTS.Reachable.of_execOk _ _ ok _ ls P rfl h

theorem running_eq_some {k : Kernel} {t : Tid} : running k = some t ↔ Runs k t := by
  unfold running Runs
  split
  · rename_i u hu
    rw [hu, ite_some_none_eq_some]
    constructor
    · rintro ⟨hs, rfl⟩
      exact ⟨rfl, hs⟩
    · rintro ⟨⟨⟩, hs⟩
      exact ⟨hs, rfl⟩
  · rename_i hne
    constructor
    · intro h
      cases h
    · rintro ⟨h, -⟩
      exact absurd h (hne t)

end MiniTree.Os
