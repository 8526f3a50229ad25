import MiniTree.Os.Mutex

/-!
# Waiting on one sync object (`schedule.c`, `thread.c`)

The part of the kernel that a semaphore, a queue or an event group sees: its wait lists,
and for each thread whether it is parked on one of them, how the wait ended, and whether
the thread may run at all. `ι` names the object's wait lists. Sources: `lib/mini-os/src`.

Which of the threads that may run does run is left open: any of them may execute its next
critical section. `timer` is the number of ticks a thread still stays in the time wheel,
and a suspended thread keeps that number in `resume_time`.

**Results.** `Waits.Ok` (a thread is on a list exactly when its `wait_list` says so) is
kept by every operation.
-/

namespace MiniTree.Os

open Function List

/-- `MINI_OS_WAIT_FOREVER` -/
def waitForever : UInt32 := 0xFFFFFFFF

/-- Whether the thread takes part in scheduling. -/
inductive Run where
  | active
  | suspended (resumeTime : Nat)
  | deleted
  deriving DecidableEq, Repr

/-- The fields of `mini_os_thread_t` that the wait functions use. -/
structure WaitTcb (ι : Type) where
  run : Run
  waitList : Option ι
  waitStatus : Bool
  timer : Option Nat
  waitRef : Bool
  deriving DecidableEq, Repr

def WaitTcb.init {ι : Type} : WaitTcb ι where
  run := .active
  waitList := none
  waitStatus := true
  timer := none
  waitRef := false

/-- READY or RUNNING. -/
def WaitTcb.Runnable {ι : Type} (x : WaitTcb ι) : Prop :=
  x.run = .active ∧ x.waitList = none ∧ x.timer = none
  deriving Decidable

structure Waits (ι : Type) where
  lists : ι → List Tid
  thr : Tid → WaitTcb ι

namespace Waits

variable {ι : Type}

def init : Waits ι where
  lists := fun _ => []
  thr := fun _ => .init

section
variable (w : Waits ι) (i : ι)

def modW (t : Tid) (f : WaitTcb ι → WaitTcb ι) : Waits ι :=
  { w with thr := update w.thr t (f (w.thr t)) }

/-- `mini_os_list_remove(&thread->wait_node)` -/
def unlink (t : Tid) : Waits ι :=
  { w with lists := fun i => (w.lists i).erase t }

/-- mirrors schedule.c:829-858 (`mini_os_sync_wait_park`), up to the yield -/
def syncWaitPark [DecidableEq ι] (w : Waits ι) (t : Tid) (i : ι) (timeout : UInt32) : Waits ι :=
  { w with lists := update w.lists i (w.lists i ++ [t]) }.modW t fun x =>
    { x with
      waitList := some i
      waitStatus := false
      waitRef := true
      timer := if timeout = waitForever then none else some timeout.toNat }

/-- mirrors schedule.c:860-866 (`mini_os_sync_wait_park`), after the yield;
the result is the `wait_status` before -/
def syncWaitDone (t : Tid) : Waits ι :=
  w.modW t fun x => { x with waitStatus := true, waitRef := false }

/-- mirrors schedule.c:901-912 (`mini_os_sync_wake_thread`) -/
def syncWakeThread (t : Tid) (succeeded : Bool) : Waits ι :=
  (w.unlink t).modW t fun x =>
    { x with waitList := none, waitStatus := succeeded, timer := none }

/-- mirrors semaphore.c:42-51 (`mini_os_semaphore_wake_one`) and
queue.c:64-73 (`mini_os_queue_wake_one`): the oldest waiter, if there is one -/
def wakeOne : Option Tid × Waits ι :=
  match w.lists i with
  | [] => (none, w)
  | t :: _ => (some t, w.syncWakeThread t true)

/-- mirrors schedule.c:914-929 (`mini_os_sync_wake_all`) -/
def syncWakeAll (succeeded : Bool) : Waits ι :=
  (w.lists i).foldl (fun w t => w.syncWakeThread t succeeded) w

/-- One thread at a tick: the last tick in the wheel releases it, and ends a wait. -/
def expire (x : WaitTcb ι) : WaitTcb ι :=
  match x.timer with
  | none => x
  | some (n + 2) => { x with timer := some (n + 1) }
  | some _ =>
    if x.waitList.isSome then { x with waitList := none, waitStatus := false, timer := none }
    else { x with timer := none }

/-- mirrors schedule.c:694-731 (`mini_os_tick_decrement`) -/
def tickDecrement : Waits ι where
  lists := fun i => (w.lists i).filter fun t => (expire (w.thr t)).waitList.isSome
  thr := fun t => expire (w.thr t)

/-- mirrors thread.c:417-470 (`mini_os_thread_suspend`): a wait is
canceled, what is left of a delay is kept -/
def suspend (t : Tid) : Waits ι :=
  match (w.thr t).run with
  | .active => (w.unlink t).modW t fun x =>
    { x with
      run := .suspended (x.timer.getD 0)
      waitList := none
      waitStatus := if x.waitList.isSome then false else x.waitStatus
      timer := none }
  | _ => w

/-- mirrors thread.c:482-502 (`mini_os_thread_resume`) -/
def resume (t : Tid) : Waits ι :=
  match (w.thr t).run with
  | .suspended n => w.modW t fun x =>
    { x with run := .active, timer := if 0 < n then some n else none }
  | _ => w

/-- mirrors thread.c:598-644 (`mini_os_thread_delete`): the thread leaves
its list; the reference it recorded is dropped by the caller of this function -/
def delete (t : Tid) : Waits ι :=
  (w.unlink t).modW t fun x =>
    { x with run := .deleted, waitList := none, timer := none, waitRef := false }

end

/-! ## List membership -/

/-- Each list has a thread once, and exactly the threads whose `wait_list` it is; those are
active. -/
structure Ok (w : Waits ι) : Prop where
  nodup : ∀ i, (w.lists i).Nodup
  mem_iff : ∀ i t, t ∈ w.lists i ↔ (w.thr t).waitList = some i
  active : ∀ t, (w.thr t).waitList.isSome → (w.thr t).run = .active

@[simp] theorem modW_lists (w : Waits ι) (t : Tid) (f : WaitTcb ι → WaitTcb ι) :
    (w.modW t f).lists = w.lists := rfl

@[simp] theorem modW_thr_self (w : Waits ι) (t : Tid) (f : WaitTcb ι → WaitTcb ι) :
    (w.modW t f).thr t = f (w.thr t) :=
  update_self ..

variable {t : Tid} {w : Waits ι} {f : WaitTcb ι → WaitTcb ι} {x : WaitTcb ι}

theorem modW_thr_of_ne (w : Waits ι) {u : Tid} (f : WaitTcb ι → WaitTcb ι) (h : u ≠ t) :
    (w.modW t f).thr u = w.thr u :=
  update_of_ne h ..

theorem modW_thr (w : Waits ι) (t u : Tid) (f : WaitTcb ι → WaitTcb ι) :
    (w.modW t f).thr u = if u = t then f (w.thr t) else w.thr u :=
  update_apply ..

section Frame

variable (w : Waits ι) {u : Tid} (h : u ≠ t)
include h

theorem syncWaitPark_thr_of_ne [DecidableEq ι] (i : ι) (timeout : UInt32) :
    (w.syncWaitPark t i timeout).thr u = w.thr u :=
  modW_thr_of_ne _ _ h

theorem syncWaitDone_thr_of_ne : (w.syncWaitDone t).thr u = w.thr u := modW_thr_of_ne _ _ h

theorem syncWakeThread_thr_of_ne (succeeded : Bool) : (w.syncWakeThread t succeeded).thr u = w.thr u :=
  modW_thr_of_ne _ _ h

theorem suspend_thr_of_ne : (w.suspend t).thr u = w.thr u := by
  unfold suspend
  split
  · exact modW_thr_of_ne _ _ h
  · rfl

theorem resume_thr_of_ne : (w.resume t).thr u = w.thr u := by
  unfold resume
  split
  · exact modW_thr_of_ne _ _ h
  · rfl

theorem delete_thr_of_ne : (w.delete t).thr u = w.thr u := modW_thr_of_ne _ _ h

end Frame

theorem syncWaitPark_thr_self [DecidableEq ι] (w : Waits ι) (t : Tid) (i : ι) (timeout : UInt32) :
    (w.syncWaitPark t i timeout).thr t =
      { w.thr t with
        waitList := some i
        waitStatus := false
        waitRef := true
        timer := if timeout = waitForever then none else some timeout.toNat } :=
  modW_thr_self ..

theorem syncWaitDone_thr_self (w : Waits ι) (t : Tid) :
    (w.syncWaitDone t).thr t = { w.thr t with waitStatus := true, waitRef := false } :=
  modW_thr_self ..

theorem syncWakeThread_thr_self (w : Waits ι) (t : Tid) (succeeded : Bool) :
    (w.syncWakeThread t succeeded).thr t =
      { w.thr t with waitList := none, waitStatus := succeeded, timer := none } :=
  modW_thr_self ..

theorem delete_thr_self (w : Waits ι) (t : Tid) : (w.delete t).thr t =
      { w.thr t with run := .deleted, waitList := none, timer := none, waitRef := false } :=
  modW_thr_self ..

theorem Ok.init : (init : Waits ι).Ok where
  nodup _ := nodup_nil
  mem_iff _ _ := by simp [Waits.init, WaitTcb.init]
  active _ _ := rfl

/-- A write that changes neither the list a thread is on nor whether it is active. -/
theorem Ok.modW (h : w.Ok) (hl : (f (w.thr t)).waitList = (w.thr t).waitList)
    (hr : (f (w.thr t)).waitList.isSome → (f (w.thr t)).run = (w.thr t).run) : (w.modW t f).Ok where
  nodup := h.nodup
  mem_iff i u := by
    rw [modW_lists, h.mem_iff, modW_thr]
    split <;> simp_all
  active u := by
    rw [modW_thr]
    split
    · intro hs
      rw [hr hs]
      exact h.active _ (hl ▸ hs)
    · exact h.active u

/-- A thread that leaves its list for good. -/
theorem Ok.leave (h : w.Ok) (hl : (f (w.thr t)).waitList = none) : ((w.unlink t).modW t f).Ok where
  nodup i := (h.nodup i).erase t
  mem_iff i u := by
    show u ∈ (w.lists i).erase t ↔ _
    rw [(h.nodup i).mem_erase_iff, h.mem_iff, modW_thr]
    split <;> simp_all [unlink]
  active u := by
    rw [modW_thr]
    split
    · simp [unlink, hl]
    · exact h.active u

theorem Ok.syncWaitPark [DecidableEq ι] (h : w.Ok) (ht : (w.thr t).Runnable) (i : ι)
    (timeout : UInt32) : (w.syncWaitPark t i timeout).Ok where
  nodup j := by
    show (update w.lists i (w.lists i ++ [t]) j).Nodup
    rw [update_apply]
    split
    · have hnot : t ∉ w.lists i := by simp [h.mem_iff, ht.2.1]
      exact (h.nodup i).append (nodup_singleton t) (by simpa using hnot)
    · exact h.nodup j
  mem_iff j u := by
    show u ∈ update w.lists i (w.lists i ++ [t]) j ↔ _
    have hnone := ht.2.1
    rw [Waits.syncWaitPark, modW_thr, update_apply]
    split <;> split <;> grind [h.mem_iff]
  active u := by
    rw [Waits.syncWaitPark, modW_thr]
    split
    · exact fun _ => ht.1
    · exact h.active u

theorem Ok.syncWaitDone (h : w.Ok) (t : Tid) : (w.syncWaitDone t).Ok :=
  h.modW rfl fun _ => rfl

theorem Ok.syncWakeThread (h : w.Ok) (t : Tid) (succeeded : Bool) : (w.syncWakeThread t succeeded).Ok :=
  h.leave rfl

theorem expire_waitList (x : WaitTcb ι) :
    (expire x).waitList = x.waitList ∨ (expire x).waitList = none := by
  fun_cases expire x <;> simp

theorem expire_run (x : WaitTcb ι) : (expire x).run = x.run := by
  fun_cases expire x <;> rfl

/-- A tick does nothing to a thread outside a wait list but count its delay down. -/
theorem expire_of_none (h : x.waitList = none) :
    (expire x).waitList = none ∧ (expire x).waitStatus = x.waitStatus := by
  fun_cases expire x <;> simp_all

/-- A wait that a tick ends has timed out. -/
theorem expire_of_some (h : (expire x).waitList = none) (hx : x.waitList ≠ none) :
    (expire x).waitStatus = false := by
  revert h
  fun_cases expire x <;> simp_all

theorem Ok.tickDecrement (h : w.Ok) : w.tickDecrement.Ok where
  nodup i := (h.nodup i).filter _
  mem_iff i t := by
    show t ∈ (w.lists i).filter _ ↔ (expire (w.thr t)).waitList = some i
    rw [mem_filter, h.mem_iff]
    rcases expire_waitList (w.thr t) with he | he
    · rw [he]
      exact and_iff_left_of_imp fun hi => by rw [hi]; rfl
    · simp [he]
  active t ht := by
    show (expire (w.thr t)).run = _
    change (expire (w.thr t)).waitList.isSome at ht
    rw [expire_run]
    rcases expire_waitList (w.thr t) with he | he
    · exact h.active t (he ▸ ht)
    · rw [he] at ht
      cases ht

theorem Ok.suspend (h : w.Ok) (t : Tid) : (w.suspend t).Ok := by
  unfold Waits.suspend
  split
  · exact h.leave rfl
  · exact h

theorem Ok.waitList_none (h : w.Ok) (ht : (w.thr t).run ≠ .active) : (w.thr t).waitList = none := by
  cases hl : (w.thr t).waitList with
  | none => rfl
  | some i => exact absurd (h.active t (by rw [hl]; rfl)) ht

theorem Ok.suspend_waitList (h : w.Ok) (t : Tid) : ((w.suspend t).thr t).waitList = none := by
  unfold Waits.suspend
  split
  · rw [modW_thr_self]
  · rename_i hne
    exact h.waitList_none hne

theorem suspend_lists_nil {i : ι} (h : w.lists i = []) (t : Tid) : (w.suspend t).lists i = [] := by
  unfold Waits.suspend
  split
  · show (w.lists i).erase t = []
    rw [h]
    rfl
  · exact h

theorem resume_lists (w : Waits ι) (t : Tid) : (w.resume t).lists = w.lists := by
  unfold Waits.resume
  split <;> rfl

theorem resume_waitList (w : Waits ι) (t : Tid) :
    ((w.resume t).thr t).waitList = (w.thr t).waitList := by
  unfold Waits.resume
  split
  · rw [modW_thr_self]
  · rfl

theorem resume_of_active (h : (w.thr t).run = .active) : w.resume t = w := by
  unfold Waits.resume
  rw [h]

theorem Ok.resume (h : w.Ok) (t : Tid) : (w.resume t).Ok := by
  unfold Waits.resume
  split
  · rename_i n hn
    refine h.modW rfl fun hs => ?_
    have := h.active t hs
    rw [hn] at this
    cases this
  · exact h

theorem Ok.delete (h : w.Ok) (t : Tid) : (w.delete t).Ok := h.leave rfl

end Waits

end MiniTree.Os
