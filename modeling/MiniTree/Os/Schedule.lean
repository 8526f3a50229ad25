import MiniTree.Core.Bits
import MiniTree.Core.Ring
import MiniTree.Os.State

/-!
# The scheduler (`lib/mini-os/src/schedule.c`)

The functions of `schedule.c` and the two re-link helpers of `thread.c` that
touch nothing but the scheduler's own data, as functions on `Sched`. A function
whose `mini_os_err_t` every caller drops returns the new state only: its error
returns are the guard that leaves the state alone. Sources: `lib/mini-os/inc`.

`listTail` and the ordered inserts do not look where the node is linked already,
as `mini_os_list_add` does not: linking a node twice is possible here, and what
keeps it from happening is proved, not assumed.
-/

namespace MiniTree.Os

open Core.Ring Core.Bits Function

namespace Sched

section
variable (s : Sched) (t : Tid) (h : ListHead)

def modT (f : Tcb → Tcb) : Sched :=
  { s with thr := update s.thr t (f (s.thr t)) }

/-- mirrors list.h:78-83 (`mini_os_list_tail`) -/
def listTail : Sched :=
  { s with lists := update s.lists h (s.lists h ++ [t]) }

/-- The insertion walks of `schedule.c`: link `t` in front of the first node that
`stop` picks. -/
def listInsert (stop : Tid → Bool) : Sched :=
  { s with lists := update s.lists h (insertBefore stop t (s.lists h)) }

/-- mirrors list.h:106-115 (`mini_os_list_remove`): the node leaves
the list it is linked on and becomes self-linked -/
def listRemove : Sched :=
  { s with lists := fun h => (s.lists h).erase t }

/-- `g_priority |= (1u << p)` -/
def setBit (p : Nat) : Sched :=
  { s with gPriority := s.gPriority ||| (1#32 <<< p) }

/-- `g_priority &= ~(1u << p)` -/
def clearBit (p : Nat) : Sched :=
  { s with gPriority := s.gPriority &&& ~~~(1#32 <<< p) }

def setThisBw (bw : Nat) : Sched :=
  { s with dlThisBw := bw }

end

end Sched

/-! ## Deadlines and bandwidth -/

/-- mirrors thread.h:139 (`mini_os_deadline_before`) -/
def deadlineBefore (first second : BitVec 32) : Bool := (first - second).slt 0

section
variable (s : Sched) (now : BitVec 32) (x : Tcb)

/-- mirrors thread.h:150-157 (`mini_os_thread_effective_deadline`) -/
def effectiveDeadline : BitVec 32 :=
  if x.dlDeadlineInherit = 0 then x.dlDeadlineTime
  else if x.dlDeadlineTime = 0 then x.dlDeadlineInherit
  else if deadlineBefore x.dlDeadlineInherit x.dlDeadlineTime then x.dlDeadlineInherit
  else x.dlDeadlineTime

/-- mirrors schedule.c:70 (`mini_os_dl_scheduled`); without the
DEADLINE class no caller compiles the test in -/
def dlScheduled (c : Cfg) (x : Tcb) : Bool :=
  c.deadline && (x.schedPolicy == .deadline || x.dlDeadlineInherit != 0)

/-- `MINI_OS_DL_BW_SCALE` -/
def dlBwScale : Nat := 2 ^ 20

/-- `MINI_OS_DL_BW_MAX`: 95 % -/
def dlBwMax : Nat := 95 * dlBwScale / 100

/-- mirrors schedule.c:91 (`mini_os_dl_bw_of`) -/
def dlBwOf (runtime period : Nat) : Nat := runtime * dlBwScale / period

/-- mirrors schedule.c:100-108 (`mini_os_dl_bandwidth_reserve`);
`none` is `MINI_OS_ERR_BUSY` -/
def dlBandwidthReserve (runtime period : Nat) : Option Sched :=
  if s.dlThisBw + dlBwOf runtime period > dlBwMax then none
  else some (s.setThisBw (s.dlThisBw + dlBwOf runtime period))

/-- mirrors schedule.c:113-118 (`mini_os_dl_bandwidth_release`) -/
def dlBandwidthRelease (runtime period : Nat) : Sched :=
  s.setThisBw (s.dlThisBw - dlBwOf runtime period)

/-- The `do … while` of `mini_os_dl_new_job`. The deadlines it tries repeat after
at most `2 ^ 32` rounds. -/
def dlAdvance (period now : BitVec 32) : Nat → BitVec 32 → BitVec 32
  | 0, d => d
  | fuel + 1, d =>
    if (d + period - now).sle 0 then dlAdvance period now fuel (d + period) else d + period

/-- mirrors schedule.c:532-542 (`mini_os_dl_new_job`) -/
def dlNewJob : Tcb :=
  { x with
    dlBudget := x.dlRunTime
    dlBudgetFrac := 0
    dlDeadlineTime := dlAdvance (BitVec.ofNat 32 x.dlPeriod) now (2 ^ 32) x.dlDeadlineTime
    dlThrottled := false
    dlJobDone := false }

/-- mirrors schedule.c:142-147 (`mini_os_dl_report_miss`) -/
def dlReportMiss : Tcb :=
  { x with dlMissCount := (x.dlMissCount + 1) % 2 ^ 32 }

/-- A job whose boundary was reached: it is reported as missed unless it was finished,
and the next one starts (schedule.c:572-574 and 715-717). -/
def dlNextJob : Tcb := dlNewJob now (if x.dlJobDone then x else dlReportMiss x)

/-- mirrors schedule.c:1027-1034 (`mini_os_tick_until`) -/
def tickUntil (deadline : BitVec 32) : Nat :=
  if (deadline - s.globalTick).sle 0 then 0 else (deadline - s.globalTick).toNat

/-- mirrors schedule.c:510-521 (`mini_os_dl_list_insert`) -/
def dlListInsert (t : Tid) : Sched :=
  s.listInsert t .dl fun r =>
    deadlineBefore (effectiveDeadline (s.thr t)) (effectiveDeadline (s.thr r))

end

/-! ## Ready structure -/

/-- mirrors schedule.c:377-434
(`mini_os_add_thread_to_ready_running_list`) -/
def addThreadToReadyRunningList (c : Cfg) (s : Sched) (t : Tid) : Sched :=
  let x := s.thr t
  if x.Runnable ∨ c.priority ≤ x.priority then s
  else
    let s₁ := s.modT t fun x => { x with state := .ready }
    if dlScheduled c x then
      -- a job whose deadline passed while the thread was off the list is over
      let s₂ := if x.schedPolicy = .deadline ∧ ¬ (s.globalTick - x.dlDeadlineTime).slt 0
        then s₁.modT t (dlNewJob s.globalTick) else s₁
      let s₃ := dlListInsert s₂ t
      if x.schedPolicy = .deadline then
        { s₃ with dlRunningBw := s₃.dlRunningBw + dlBwOf x.dlRunTime x.dlPeriod }
      else s₃
    else if c.edf ∧ x.schedPolicy = .edf then
      (s₁.listInsert t (.ready x.priority) fun r =>
        (s₁.thr r).schedPolicy == .normal ||
          deadlineBefore (effectiveDeadline x) (effectiveDeadline (s₁.thr r))).setBit x.priority
    else (s₁.listTail t (.ready x.priority)).setBit x.priority

/-- mirrors schedule.c:446-474
(`mini_os_remove_thread_from_ready_running_list`) -/
def removeThreadFromReadyRunningList (c : Cfg) (s : Sched) (t : Tid) : Sched :=
  let x := s.thr t
  if ¬ x.Runnable ∨ c.priority ≤ x.priority then s
  else
    let s := s.listRemove t
    if dlScheduled c x then
      if x.schedPolicy = .deadline then
        { s with dlRunningBw := s.dlRunningBw - dlBwOf x.dlRunTime x.dlPeriod }
      else s
    else if s.lists (.ready x.priority) = [] then s.clearBit x.priority
    else s

/-! ## Time wheel -/

/-- mirrors schedule.c:484-497 (`mini_os_wheel_remove`) -/
def wheelRemove (c : Cfg) (s : Sched) (t : Tid) : Sched :=
  if (s.thr t).state ≠ .blocked then s
  else (s.listRemove t).modT t fun x => { x with round := 0, wheelSlot := c.tickWheel }

/-- mirrors schedule.c:744-759 (`mini_os_wheel_insert`). The wheel
size is a power of two: `& MINI_OS_TICK_WHEEL_MASK` is `%` and the shift by its
`ctz` is `/`. -/
def wheelInsert (c : Cfg) (s : Sched) (t : Tid) (ticks : Nat) : Sched :=
  if ticks = 0 then s
  else
    let slot := (s.currentSlot + ticks) % 2 ^ 32 % c.tickWheel
    (s.modT t fun x =>
      { x with
        round := (ticks - 1) / c.tickWheel
        wheelSlot := slot
        state := .blocked }).listTail t (.wheel slot)

/-- mirrors schedule.c:769-779 (`mini_os_wheel_remain`) -/
def wheelRemain (c : Cfg) (s : Sched) (t : Tid) : BitVec 32 :=
  let x := s.thr t
  if c.tickWheel ≤ x.wheelSlot then 0
  else
    let remain := (x.wheelSlot + c.tickWheel - s.currentSlot) % c.tickWheel
    BitVec.ofNat 32 ((if remain = 0 then c.tickWheel else remain) + x.round * c.tickWheel)

/-! ## Selection -/

section
variable (c : Cfg) (s : Sched) (n : Node)

/-- mirrors schedule.h:206-213 (`mini_os_get_highest_priority`) -/
def getHighestPriority : Nat :=
  if s.gPriority = 0 then c.priority else ctz s.gPriority

def listHeads : List ListHead :=
  .dl :: .defunct :: ((List.range c.priority).map .ready ++ (List.range c.tickWheel).map .wheel)

/-- `thread->list_node.next`: the next node of the ring the thread is linked on;
a node that is linked nowhere points at itself. -/
def nodeNext (t : Tid) : Node :=
  match (listHeads c).find? fun h => t ∈ s.lists h with
  | none => .thread t
  | some h => match after t (s.lists h) with
    | some u => .thread u
    | none => .head h

/-- `head->next` of a sentinel. -/
def headNext (h : ListHead) : Node :=
  match (s.lists h).head? with
  | some u => .thread u
  | none => .head h

/-- The policy read from the TCB around a node. -/
def nodePolicy : Node → Option SchedPolicy
  | .thread t => some (s.thr t).schedPolicy
  | .head _ => none

/-- The outgoing thread is demoted RUNNING → READY. -/
def demoteCurrent : Sched :=
  match s.current with
  | some (.thread t) =>
    if (s.thr t).state = .running then s.modT t fun x => { x with state := .ready } else s
  | _ => s

/-- The node the selection arrives at on priority level `next`, when the level of
the switch before was `old`: the round-robin successor of a current thread that
is still ready, the head of the level otherwise. -/
def selectLevel (old next : Nat) : Node :=
  let head := headNext s (.ready next)
  if c.edf ∧ nodePolicy s head ≠ some .normal then head
  else match s.current with
    | some (.thread t) =>
      let succ := nodeNext c s t
      if next = old ∧ (s.thr t).state = .ready ∧ succ ≠ .thread t then
        if succ = .head (.ready next) then head else succ
      else head
    | _ => head

/-- `next_thread->state = RUNNING; mini_os_current_thread = next_thread`. -/
def publish : Sched :=
  match n with
  | .thread t => { s.modT t fun x => { x with state := .running } with current := some n }
  | .head _ => { s with current := some n }

/-- mirrors schedule.c:244-295 (`mini_os_schedule_switch`) -/
def scheduleSwitch : Err × Sched :=
  let s := demoteCurrent s
  if c.deadline ∧ s.lists .dl ≠ [] then (.ok, publish s (headNext s .dl))
  else
    let old := s.currentPriority
    let next := getHighestPriority c s
    if c.priority ≤ next then (.nodev, s)
    else
      let s := { s with currentPriority := next }
      (.ok, publish s (selectLevel c s old next))

end

/-! ## Re-linking a thread whose position changes -/

/-- Take a READY or RUNNING thread off its list, change its fields and put it
back: the state is SUSPENDED in between because the add refuses READY and
RUNNING, and RUNNING is restored afterwards. -/
def relink (c : Cfg) (s : Sched) (t : Tid) (f : Tcb → Tcb) : Sched :=
  let state := (s.thr t).state
  let s := removeThreadFromReadyRunningList c s t
  let s := s.modT t fun x => { f x with state := .suspended }
  let s := addThreadToReadyRunningList c s t
  if state = .running then s.modT t fun x => { x with state := .running } else s

/-- mirrors thread.c:983-1018 (`mini_os_thread_priority_apply`) -/
def threadPriorityApply (c : Cfg) (s : Sched) (t : Tid) (priority : Nat) : Sched :=
  let x := s.thr t
  if c.priority ≤ priority ∨ priority = x.priority then s
  else if x.Runnable then relink c s t fun x => { x with priority := priority }
  else s.modT t fun x => { x with priority := priority }

/-- `relink` of `mini_os_thread_deadline_apply`: does the list position depend on the
deadline? -/
def deadlineRelinks (c : Cfg) (x : Tcb) (deadline : BitVec 32) : Bool :=
  if c.deadline then
    decide (x.schedPolicy ≠ .normal ∨ x.dlDeadlineInherit ≠ 0 ∨ deadline ≠ 0)
  else x.schedPolicy == .edf

/-- mirrors thread.c:1049-1088 (`mini_os_thread_deadline_apply`) -/
def threadDeadlineApply (c : Cfg) (s : Sched) (t : Tid) (deadline : BitVec 32) : Sched :=
  let x := s.thr t
  if x.dlDeadlineInherit = deadline then s
  else if deadlineRelinks c x deadline ∧ x.Runnable then
    relink c s t fun x => { x with dlDeadlineInherit := deadline }
  else s.modT t fun x => { x with dlDeadlineInherit := deadline }

/-! ## Budget of the running DL thread -/

section
variable (c : Cfg) (s : Sched) (t : Tid)

/-- One node of the walk of `mini_os_dl_replenish_due`. -/
def dlReplenish : Sched :=
  let x := s.thr t
  if x.schedPolicy ≠ .deadline ∨ (s.globalTick - x.dlDeadlineTime).slt 0 then s
  else dlListInsert ((s.listRemove t).modT t (dlNextJob s.globalTick)) t

/-- mirrors schedule.c:556-577 (`mini_os_dl_replenish_due`). The
walk may meet a node it moved towards the tail once more; that node's deadline
is ahead by then and it is passed over, so each node is handled once. -/
def dlReplenishDue : Sched := (s.lists .dl).foldl dlReplenish s

/-- schedule.c:595-596 -/
def dlMarkThrottled (x : Tcb) : Tcb :=
  { x with dlThrottled := true, dlThrottleCount := (x.dlThrottleCount + 1) % 2 ^ 32 }

/-- mirrors schedule.c:590-602 (`mini_os_dl_throttle`) -/
def dlThrottle : Sched :=
  let s := (removeThreadFromReadyRunningList c s t).modT t dlMarkThrottled
  wheelInsert c s t (max 1 (tickUntil s (s.thr t).dlDeadlineTime))

/-- The running thread's budget after one tick: `running_bw / this_bw` of a tick is
spent, the `while` loop takes the whole ticks out of the fraction. -/
def dlSpend (x : Tcb) : Tcb :=
  let delta := max 1 (s.dlRunningBw * dlBwScale / s.dlThisBw)
  let frac := (x.dlBudgetFrac + delta % 2 ^ 32) % 2 ^ 32
  { x with dlBudgetFrac := frac % dlBwScale, dlBudget := x.dlBudget - frac / dlBwScale }

/-- The tests of `mini_os_dl_tick_decrement` before it charges a tick. -/
def dlCharged : Prop :=
  s.dlThisBw ≠ 0 ∧ (s.thr t).schedPolicy = .deadline ∧ (s.thr t).dlThrottled = false
  deriving Decidable

/-- mirrors schedule.c:615-638 (`mini_os_dl_tick_decrement`) -/
def dlTickDecrement : Sched :=
  match s.current with
  | some (.thread t) =>
    if dlCharged s t then
      let s' := s.modT t (dlSpend s)
      if (s'.thr t).dlBudget = 0 then dlThrottle c s' t else s'
    else s
  | _ => s

end

end MiniTree.Os
