import Mathlib.Algebra.Group.Nat.Defs
import Mathlib.Logic.Function.Basic
import Mathlib.Data.List.Basic

/-!
# mini-os kernel state

The data of `lib/mini-os` that the scheduler, the thread API and the mutexes
read and write, at the granularity of a critical section: every value of
`Kernel` is what memory holds at a point where interrupts are enabled.
Sources: `lib/mini-os/src`, `lib/mini-os/inc`.

* Threads and mutexes are named by fresh numbers (`Tid`, `Mid`), so a handle is
  never reused.
* A circular list headed by a sentinel is the list of its nodes; `ListHead`
  names the sentinels a TCB's `list_node` can be linked under (a ready level,
  the DL ready list, a wheel slot, the corpse queue), `WaitId` those its
  `wait_node` can be linked under.
* The TCB is split into the half the scheduler owns (`Tcb`, in `Sched`) and the
  half the sync objects own (`SyncTcb`, in `Sync`). `Call` is the program
  counter of an API call between two of its critical sections.
* `SyncTcb.locks` is a history variable: the mutexes the thread's successful
  `mini_os_mutex_lock` calls have taken and that were neither finally unlocked
  nor force-released since. No modelled function reads it.

Left out: names, stacks, entry points, hooks, joins and time slices; a slice
that runs out only requests a context switch, which `Label.switch` allows at
any time.
-/

namespace MiniTree.Os

abbrev Tid := Nat
abbrev Mid := Nat

/-- `mini_config.h`: the build's sizes and scheduling classes. A wheel has at
most 128 slots because `wheel_slot` is a `uint8_t` whose value
`MINI_OS_TICK_WHEEL` means "not in the wheel". -/
structure Cfg where
  priority : Nat
  tickWheel : Nat
  piChainMax : Nat
  edf : Bool
  deadline : Bool
  priority_pos : 0 < priority
  priority_le : priority ≤ 32
  wheel_pow : ∃ b ≤ 7, tickWheel = 2 ^ b
  chain_pos : 0 < piChainMax

theorem Cfg.wheel_pos (c : Cfg) : 0 < c.tickWheel := by
  obtain ⟨b, -, h⟩ := c.wheel_pow
  exact h ▸ Nat.two_pow_pos b

/-- The defaults of `mini_config.h`; `edf` and `deadline` choose the build. -/
def Cfg.build (edf deadline : Bool) : Cfg where
  priority := 32
  tickWheel := 32
  piChainMax := 8
  edf := edf
  deadline := deadline
  priority_pos := by decide
  priority_le := by decide
  wheel_pow := ⟨5, by decide, by decide⟩
  chain_pos := by decide

/-- mirrors thread.h:28-37 -/
inductive ThreadState where
  | init | running | ready | suspended | blocked | invalid | terminated
  deriving DecidableEq, Repr

inductive SchedPolicy where
  | normal | edf | deadline
  deriving DecidableEq, Repr

/-- `minierr.h`: the codes the modelled functions return. -/
inductive Err where
  | ok | inval | busy | again | timeout | reject | notsupp | nodev | dead
  deriving DecidableEq, Repr

/-- The sentinels a `list_node` can be linked under. -/
inductive ListHead where
  | ready (p : Nat)
  | dl
  | wheel (slot : Nat)
  | defunct
  deriving DecidableEq, Repr

/-- What a `mini_os_list_t *` that should lead to a TCB really points at. -/
inductive Node where
  | thread (t : Tid)
  | head (h : ListHead)
  deriving DecidableEq, Repr

def Node.asThread : Node → Option Tid
  | .thread t => some t
  | .head _ => none

def Node.asHead : Node → Option ListHead
  | .thread _ => none
  | .head h => some h

/-- The scheduler's half of `mini_os_thread_t`. -/
structure Tcb where
  state : ThreadState
  priority : Nat
  basePriority : Nat
  round : Nat
  resumeTime : BitVec 32
  wheelSlot : Nat
  schedPolicy : SchedPolicy
  dlDeadlineTime : BitVec 32
  dlDeadlineInherit : BitVec 32
  dlRunTime : Nat
  dlBudget : Nat
  dlBudgetFrac : Nat
  dlPeriod : Nat
  dlThrottled : Bool
  dlJobDone : Bool
  dlMissCount : Nat
  dlFinishCount : Nat
  dlThrottleCount : Nat
  deriving DecidableEq, Repr

/-- mirrors thread.c:88-165 (`mini_os_thread_init`) -/
def threadInit (c : Cfg) (priority : Nat) : Tcb where
  state := .init
  priority := priority
  basePriority := priority
  round := 0
  resumeTime := 0
  wheelSlot := c.tickWheel
  schedPolicy := .normal
  dlDeadlineTime := 0
  dlDeadlineInherit := 0
  dlRunTime := 0
  dlBudget := 0
  dlBudgetFrac := 0
  dlPeriod := 0
  dlThrottled := false
  dlJobDone := false
  dlMissCount := 0
  dlFinishCount := 0
  dlThrottleCount := 0

/-- Storage that holds no thread: not created yet, or given back. -/
def Tcb.free (c : Cfg) : Tcb :=
  { threadInit c 0 with state := .invalid }

/-- READY or RUNNING. -/
def Tcb.Runnable (x : Tcb) : Prop := x.state = .ready ∨ x.state = .running
  deriving Decidable

/-- The scheduler's globals (`schedule.c`, `thread.c`). -/
structure Sched where
  gPriority : BitVec 32
  lists : ListHead → List Tid
  thr : Tid → Tcb
  current : Option Node
  currentPriority : Nat
  currentSlot : Nat
  globalTick : BitVec 32
  dlThisBw : Nat
  dlRunningBw : Nat

/-- mirrors schedule.c:190-206 (`mini_os_schedule_init`), before
any thread exists -/
def scheduleInit (c : Cfg) : Sched where
  gPriority := 0
  lists := fun _ => []
  thr := fun _ => .free c
  current := none
  currentPriority := 0
  currentSlot := 0
  globalTick := 0
  dlThisBw := 0
  dlRunningBw := 0

/-- The wait lists a `wait_node` can be linked under: the embedded semaphore of
a mutex, or any other sync object. -/
inductive WaitId where
  | mutex (m : Mid)
  | obj (n : Nat)
  deriving DecidableEq, Repr

/-- An object reference recorded in `wait_refs`. -/
inductive RefId where
  | mutex (m : Mid)
  | mutexSem (m : Mid)
  | obj (n : Nat)
  deriving DecidableEq, Repr

/-- Where an API call stands between two critical sections. `lock…` are the
points of `mini_os_mutex_lock` and of the `mini_os_semaphore_take` it makes. -/
inductive Call where
  /-- no call in progress -/
  | none
  /-- `mutex->obj` acquired, before the first critical section -/
  | lockEnter (m : Mid) (timeout : BitVec 32)
  /-- about to call `mini_os_semaphore_take` -/
  | lockTake (m : Mid) (timeout : BitVec 32)
  /-- `semaphore->obj` acquired, before the take's critical section -/
  | lockWait (m : Mid) (timeout : BitVec 32)
  /-- parked by `mini_os_sync_wait_park` -/
  | lockParked (m : Mid)
  /-- `mini_os_sync_wait_park` or the count test is over -/
  | lockTaken (m : Mid) (ret : Err)
  /-- `mini_os_semaphore_take` is over, before the last critical section -/
  | lockExit (m : Mid) (ret : Err)
  /-- only `mini_os_obj_release` is left -/
  | lockRelease (m : Mid) (ret : Err)
  /-- `mini_os_mutex_unlock` left its critical section, the give is next -/
  | unlockGive (m : Mid)
  /-- parked on another sync object -/
  | objParked (n : Nat)
  /-- `mini_os_thread_resume` tested the target's state -/
  | resume (t : Tid)
  /-- `mini_os_thread_delete` tested the target's state -/
  | delete (t : Tid)
  /-- `mini_os_thread_set_priority` or `_set_deadline` stored its value, the
  recomputation is next -/
  | recompute (t : Tid)
  deriving DecidableEq, Repr

/-- The sync objects' half of `mini_os_thread_t`. -/
structure SyncTcb where
  waitList : Option WaitId
  waitStatus : Bool
  waitMutex : Option Mid
  waitRefs : List RefId
  holdList : List Mid
  call : Call
  locks : List Mid
  deriving DecidableEq, Repr

def SyncTcb.init : SyncTcb where
  waitList := none
  waitStatus := true
  waitMutex := none
  waitRefs := []
  holdList := []
  call := .none
  locks := []

/-- mirrors obj.h:31-35 (`mini_os_obj_t`); `ref` is a `uint8_t` -/
structure Obj where
  ref : Nat
  heapOwned : Bool
  destroy : Bool
  kill : Bool
  timeout : Bool
  deriving DecidableEq, Repr

/-- mirrors obj.h:58-62 (`mini_os_obj_init`) -/
def objInit (heapOwned : Bool) : Obj :=
  { ref := 1, heapOwned := heapOwned, destroy := false, kill := false, timeout := false }

/-- `mini_os_mutex_t`, its embedded semaphore included. `reclaimed` records that
the storage was given back. -/
structure Mutex where
  count : Nat
  maxCount : Nat
  semObj : Obj
  owner : Option Tid
  depth : Nat
  isRecursive : Bool
  obj : Obj
  reclaimed : Bool
  deriving DecidableEq, Repr

/-- mirrors mutex.c:257-283 (`mini_os_mutex_init`) -/
def mutexInit (isRecursive heapOwned : Bool) : Mutex where
  count := 1
  maxCount := 1
  semObj := objInit false
  owner := none
  depth := 0
  isRecursive := isRecursive
  obj := objInit heapOwned
  reclaimed := false

/-- Caller storage after `MINI_OS_MEMSET(storage, 0, size)`, and storage that
never held a mutex. -/
def Mutex.zero : Mutex where
  count := 0
  maxCount := 0
  semObj := { ref := 0, heapOwned := false, destroy := false, kill := false, timeout := false }
  owner := none
  depth := 0
  isRecursive := false
  obj := { ref := 0, heapOwned := false, destroy := false, kill := false, timeout := false }
  reclaimed := true

/-- Wait lists, the threads' sync fields and the mutexes. -/
structure Sync where
  waiters : WaitId → List Tid
  wait : Tid → SyncTcb
  mutex : Mid → Mutex

/-- The whole kernel. `nThread` and `nMutex` are the next fresh names. -/
structure Kernel extends Sched, Sync where
  nThread : Nat
  nMutex : Nat

/-- The kernel before the first thread is created. -/
def boot (c : Cfg) : Kernel where
  toSched := scheduleInit c
  waiters := fun _ => []
  wait := fun _ => .init
  mutex := fun _ => .zero
  nThread := 0
  nMutex := 0

end MiniTree.Os
