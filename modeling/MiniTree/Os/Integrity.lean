import MiniTree.Os.Links
import MiniTree.Os.Thread

/-!
# List integrity of the kernel

`Intact` is the structural invariant of the kernel: every `list_node` is linked on
its home list (`Linked`), every `wait_node` on the wait list its TCB names and only
while its thread is BLOCKED (`Parked`), and storage no thread owns is INVALID. This
module shows that parking, waking, priority inheritance and every critical section
of the mutexes keep it; `IntegrityThread` does the thread API and `IntegrityRun` the
interrupts and whole runs.
-/

namespace MiniTree.Os

open MiniTree.Core Function List BitVec

/-! ## Field lemmas -/

section fields

variable (y : Sync) (t u : Tid) (m : Mid) (w v : WaitId)

section
variable (f : SyncTcb → SyncTcb)

@[simp] theorem modW_waiters : (y.modW t f).waiters = y.waiters := rfl
@[simp] theorem modW_mutex : (y.modW t f).mutex = y.mutex := rfl
@[simp] theorem modW_wait_self : (y.modW t f).wait t = f (y.wait t) := by
  simp [Sync.modW]

theorem modW_wait : (y.modW t f).wait u = if u = t then f (y.wait t) else y.wait u := by
  simp [Sync.modW, update_apply]

theorem modW_wait_ne {y : Sync} {t u : Tid} (hu : u ≠ t) :
    (y.modW t f).wait u = y.wait u := by simp [Sync.modW, hu]

end

@[simp] theorem modM_wait (f : Mutex → Mutex) : (y.modM m f).wait = y.wait := rfl
@[simp] theorem waitUnlink_wait : (y.waitUnlink t).wait = y.wait := rfl
@[simp] theorem waitUnlink_mutex : (y.waitUnlink t).mutex = y.mutex := rfl
@[simp] theorem waitUnlink_waiters : (y.waitUnlink t).waiters w = (y.waiters w).erase t := rfl
@[simp] theorem waitTail_wait : (y.waitTail t w).wait = y.wait := rfl
@[simp] theorem waitTail_mutex : (y.waitTail t w).mutex = y.mutex := rfl
@[simp] theorem hold_mutex : (y.hold m t).mutex = y.mutex := rfl
@[simp] theorem unhold_mutex : (y.unhold m).mutex = y.mutex := rfl
@[simp] theorem endLock_mutex : (y.endLock m t).mutex = y.mutex := rfl
@[simp] theorem endLocks_mutex : (y.endLocks m).mutex = y.mutex := rfl

end fields

/-! ## The invariant -/

/-- Every `wait_node` is linked where its TCB says, once, and only while its thread is
BLOCKED. -/
structure Parked (y : Sync) (s : Sched) : Prop where
  nodup : ∀ w, (y.waiters w).Nodup
  mem_iff : ∀ w t, t ∈ y.waiters w ↔ (y.wait t).waitList = some w
  blocked : ∀ t w, (y.wait t).waitList = some w → (s.thr t).state = .blocked

/-- The structural invariant; `X` are threads on their way out, whose nodes are linked
nowhere. -/
structure Intact (c : Cfg) (X : Set Tid) (k : Kernel) : Prop where
  linked : Linked c X k.toSched
  parked : Parked k.toSync k.toSched
  fresh : ∀ t, k.nThread ≤ t → (k.thr t).state = .invalid

theorem intact_boot (c : Cfg) : Intact c ∅ (boot c) where
  linked :=
    { nodup := fun _ => nodup_nil
      bitmap := by simp [boot, scheduleInit]
      off := fun _ h => absurd h (Set.notMem_empty _)
      mem_iff := by simp [boot, scheduleInit, home, Tcb.free]
      prio_lt := fun _ => c.priority_pos
      slot_blocked := by simp [boot, scheduleInit, Tcb.free, threadInit] }
  parked :=
    { nodup := fun _ => nodup_nil
      mem_iff := by simp [boot, SyncTcb.init]
      blocked := by simp [boot, SyncTcb.init] }
  fresh := fun _ _ => rfl

section congr

variable {c : Cfg} {X : Set Tid} {k k' : Kernel}

section
variable (h : Intact c X k)
include h

/-- The invariant reads no sync field but the wait lists. -/
theorem Intact.of_sync (hs : k'.toSched = k.toSched)
    (hw : k'.waiters = k.waiters) (hl : ∀ t, (k'.wait t).waitList = (k.wait t).waitList)
    (hn : k'.nThread = k.nThread) : Intact c X k' where
  linked := hs ▸ h.linked
  parked :=
    { nodup := hw ▸ h.parked.nodup
      mem_iff := fun w t => by
        rw [hw, hl]
        exact h.parked.mem_iff w t
      blocked := fun t w hwt => by
        rw [hs]
        exact h.parked.blocked t w (by rw [← hl]; exact hwt) }
  fresh t ht := by
    rw [hs]
    exact h.fresh t (hn ▸ ht)

/-- A step of the scheduler alone: the new lists are right and no thread that a wait
list or a free name depends on changes state. -/
theorem Intact.of_sched (hl : Linked c X k'.toSched)
    (hy : k'.toSync = k.toSync) (hn : k'.nThread = k.nThread)
    (hs : ∀ t, (k.thr t).state = .invalid ∨ (k.wait t).waitList ≠ none →
      (k'.thr t).state = (k.thr t).state) : Intact c X k' where
  linked := hl
  parked :=
    { nodup := hy ▸ h.parked.nodup
      mem_iff := hy ▸ h.parked.mem_iff
      blocked := fun t w hw => by
        rw [hy] at hw
        rw [hs t (.inr (by rw [hw]; simp))]
        exact h.parked.blocked t w hw }
  fresh t ht := by
    rw [hn] at ht
    rw [hs t (.inl (h.fresh t ht))]
    exact h.fresh t ht

theorem Intact.not_waiting {t : Tid} (hb : (k.thr t).state ≠ .blocked) :
    (k.wait t).waitList = none := by
  cases hw : (k.wait t).waitList with
  | none => rfl
  | some w => exact absurd (h.parked.blocked t w hw) hb

/-- A step of the scheduler on one thread, which is on no wait list. -/
theorem Intact.of_one {t : Tid} {s : Sched} (hw : (k.wait t).waitList = none)
    (hi : (k.thr t).state ≠ .invalid) (hl : Linked c X s)
    (hs : ∀ u, u ≠ t → (s.thr u).state = (k.thr u).state) : Intact c X { k with toSched := s } := by
  refine h.of_sched hl rfl rfl fun u hu => hs u ?_
  rintro rfl
  exact hu.elim hi fun hn => hn hw

theorem Intact.setCall (t : Tid) (call : Call) : Intact c X (k.setCall t call) :=
  h.of_sync rfl rfl (fun u => by simp only [Kernel.setCall, modW_wait]; split <;> simp_all) rfl

end

end congr

/-! ## Priority inheritance -/

section propagate

variable {c : Cfg} {y : Sync} {s : Sched}

theorem applyPriority_eq (t : Tid) (p : Nat) : applyPriority c s t p = threadPriorityApply c s t p := by
  unfold applyPriority threadPriorityApply
  split <;> simp_all

theorem applyDeadline_eq (t : Tid) (d : BitVec 32) :
    applyDeadline c s t d = threadDeadlineApply c s t d := by
  unfold applyDeadline threadDeadlineApply
  split <;> simp_all

theorem propagateOne_linked (h : Linked c ∅ s) (t : Tid) (e : Nat) (d : BitVec 32) :
    Linked c ∅ (propagateOne c y s t e d).1 ∧ Reranked s (propagateOne c y s t e d).1 := by
  unfold propagateOne
  simp only [applyPriority_eq, applyDeadline_eq]
  have h1 := h.priorityApply (Set.notMem_empty t) (min (mutexRequiredPriority c y s t) e)
  have h2 := priorityApply_reranked (c := c) (s := s) (t := t)
    (min (mutexRequiredPriority c y s t) e)
  split
  · exact ⟨h1.deadlineApply (Set.notMem_empty t) _, h2.trans (deadlineApply_reranked h1 _)⟩
  · exact ⟨h1, h2⟩

/-- What one round keeps, the loop keeps. -/
theorem propagateLoop_keeps {P : Sched → Prop}
    (hone : ∀ s t e d, P s → P (propagateOne c y s t e d).1) (n : Nat) (hP : P s) (t : Option Tid)
    (e : Nat) (d : BitVec 32) : P (propagateLoop c y n s t e d) := by
  induction n generalizing s t e d with
  | zero => exact hP
  | succ n ih =>
    cases t with
    | none => exact hP
    | some t =>
      unfold propagateLoop
      simp only
      split
      · exact hone s t e d hP
      · exact ih (hone s t e d hP) _ _ _

theorem propagate_linked (h : Linked c ∅ s) (t : Option Tid) (e : Nat) (d : BitVec 32) :
    Linked c ∅ (mutexPropagate c y s t e d) ∧ Reranked s (mutexPropagate c y s t e d) := by
  refine propagateLoop_keeps (P := fun s' => Linked c ∅ s' ∧ Reranked s s') (fun s' t e d hs => ?_) _
    ⟨h, .refl s⟩ t e d
  have h1 := propagateOne_linked (y := y) hs.1 t e d
  exact ⟨h1.1, hs.2.trans h1.2⟩

theorem Intact.propagate {k : Kernel} (h : Intact c ∅ k) (t : Option Tid) (e : Nat) (d : BitVec 32) :
    Intact c ∅ { k with toSched := mutexPropagate c y k.toSched t e d } := by
  have hp := propagate_linked (y := y) h.linked t e d
  exact h.of_sched hp.1 rfl rfl fun u _ => hp.2.state u

end propagate

/-! ## Parking and waking -/

section park

variable {c : Cfg} {X : Set Tid} {k : Kernel} {t : Tid} {s : Sched}

theorem Intact.unpark (h : Intact c X k) {s' : Sched} {f : SyncTcb → SyncTcb}
    (hf : (f (k.wait t)).waitList = none) (hl : Linked c X s')
    (hs : ∀ u, u ≠ t → (s'.thr u).state = (k.thr u).state) (ht : (k.thr t).state ≠ .invalid) :
    Intact c X { k with toSched := s', toSync := (k.toSync.waitUnlink t).modW t f } where
  linked := hl
  parked :=
    { nodup := fun w => (h.parked.nodup w).erase t
      mem_iff := fun w u => by
        rw [modW_waiters, waitUnlink_waiters, modW_wait, waitUnlink_wait]
        split
        · rename_i hu
          subst hu
          simp [hf, (h.parked.nodup w).not_mem_erase]
        · rename_i hu
          rw [mem_erase_of_ne hu]
          exact h.parked.mem_iff w u
      blocked := fun u w hw => by
        rw [modW_wait, waitUnlink_wait] at hw
        split at hw
        · rw [hf] at hw
          cases hw
        · rename_i hu
          rw [hs u hu]
          exact h.parked.blocked u w hw }
  fresh u hu := by
    have hne : u ≠ t := by
      rintro rfl
      exact ht (h.fresh u hu)
    rw [hs u hne]
    exact h.fresh u hu

/-- What `syncWakeThread` does to the lists of the scheduler. -/
def wakeNode (c : Cfg) (s : Sched) (t : Tid) : Sched := addThreadToReadyRunningList c
  (if (s.thr t).wheelSlot < c.tickWheel then wheelRemove c s t else s) t

/-- What `syncWaitPark` does to the lists of the scheduler. -/
def parkNode (c : Cfg) (s : Sched) (t : Tid) (timeout : BitVec 32) : Sched :=
  let s := (removeThreadFromReadyRunningList c s t).modT t fun x => { x with state := .blocked }
  if timeout = -1 then s else wheelInsert c s t timeout.toNat

/-- A BLOCKED thread, in the wheel or not, becomes READY. -/
theorem Linked.wake (h : Linked c X s) (ht : t ∉ X) (hb : (s.thr t).state = .blocked) :
    Linked c X (wakeNode c s t) ∧ ∀ u, u ≠ t → ((wakeNode c s t).thr u) = s.thr u := by
  unfold wakeNode
  split
  · rename_i hw
    have hr : wheelRemove c s t = (s.listRemove t).modT t
        fun x => { x with round := 0, wheelSlot := c.tickWheel } := by simp [wheelRemove, hb]
    have hd : Linked c (insert t X) (wheelRemove c s t) := by
      rw [hr]
      exact (h.unlink ht (by simp [home_blocked hb, hw])).modT_off (Set.mem_insert t X) (h.prio_lt t)
    have hnr : ¬ ((wheelRemove c s t).thr t).Runnable := by simp [hr, Tcb.Runnable, hb]
    refine ⟨hd.add ht hnr (by simp [hr]), fun u hu => ?_⟩
    rw [add_thr hnr (hd.prio_lt t), update_of_ne hu, hr, modT_thr_ne _ hu]
    rfl
  · rename_i hw
    have hd := h.detached ht (by simp [home_blocked hb, hw])
    have hnr : ¬ (s.thr t).Runnable := by simp [Tcb.Runnable, hb]
    refine ⟨hd.add ht hnr (by omega), fun u hu => ?_⟩
    rw [add_thr hnr (h.prio_lt t), update_of_ne hu]

theorem Intact.wake (h : Intact c X k) (ht : t ∉ X) (hb : (k.thr t).state = .blocked) (b : Bool) :
    Intact c X (syncWakeThread c k t b) := by
  have hw := h.linked.wake ht hb
  exact h.unpark rfl hw.1
    (fun u hu => congrArg Tcb.state (hw.2 u hu)) (by rw [hb]; simp)

theorem wake_thr_ne {u : Tid} (h : Intact c X k) (ht : t ∉ X) (hb : (k.thr t).state = .blocked)
    (b : Bool) (hu : u ≠ t) : (syncWakeThread c k t b).thr u = k.thr u :=
  (h.linked.wake ht hb).2 u hu

theorem wake_wait_ne {u : Tid} (b : Bool) (hu : u ≠ t) :
    (syncWakeThread c k t b).wait u = k.wait u := by simp [syncWakeThread, modW_wait_ne _ hu]

theorem Linked.park (h : Linked c ∅ s) (hr : (s.thr t).Runnable) (timeout : BitVec 32)
    (ht : timeout ≠ 0) : Linked c ∅ (parkNode c s t timeout) := by
  have hn := Set.notMem_empty t
  have hslot := h.slot_of_not_blocked hn hr.ne_blocked
  have hd := (h.remove hn hr).modT_off (Set.mem_insert t ∅) (f := fun x => { x with state := .blocked })
    (by rw [remove_thr]; exact h.prio_lt t)
  unfold parkNode
  split
  · refine hd.settle hn ?_ fun _ => by rw [modT_thr_self]
    rw [modT_thr_self, remove_thr, home_blocked rfl]
    simp [not_lt.mpr hslot]
  · refine hd.wheelInsert hn ?_
    intro h0
    exact ht (eq_of_toNat_eq h0)

theorem wheelInsert_state (n : Nat) (hn : n ≠ 0) (u : Tid) :
    ((wheelInsert c s t n).thr u).state = if u = t then .blocked else (s.thr u).state := by
  unfold wheelInsert
  simp only [hn, if_false, listTail_thr, modT_thr]
  split <;> rfl

theorem park_state (timeout : BitVec 32) (ht : timeout ≠ 0) (u : Tid) :
    ((parkNode c s t timeout).thr u).state = if u = t then .blocked else (s.thr u).state := by
  unfold parkNode
  simp only
  split
  · rw [modT_thr, remove_thr]
    split <;> rfl
  · rw [wheelInsert_state _ (fun h0 => ht (eq_of_toNat_eq h0)), modT_thr, remove_thr]
    split <;> simp_all

theorem Intact.park (h : Intact c ∅ k) (hr : (k.thr t).Runnable) (w : WaitId) {timeout : BitVec 32}
    (ht : timeout ≠ 0) (ref : RefId) : Intact c ∅ (syncWaitPark c k t w timeout ref) := by
  have hnw := h.not_waiting hr.ne_blocked
  have hst := park_state (c := c) (s := k.toSched) (t := t) timeout ht
  have hwait : ∀ u, ((syncWaitPark c k t w timeout ref).wait u).waitList =
      if u = t then some w else (k.wait u).waitList := by
    intro u
    simp only [syncWaitPark, waitTail_wait, syncWaitRefPush]
    split <;> simp only [modW_wait] <;> split <;> simp_all
  have hwl : ∀ v, (syncWaitPark c k t w timeout ref).waiters v =
      if v = w then k.waiters w ++ [t] else k.waiters v := by
    intro v
    simp only [syncWaitPark, Sync.waitTail, syncWaitRefPush]
    split <;> simp [update_apply]
  have hnot : ∀ v, t ∉ k.waiters v := fun v hm => by
    rw [h.parked.mem_iff, hnw] at hm
    cases hm
  refine ⟨h.linked.park hr timeout ht, ⟨fun v => ?_, fun v u => ?_, fun u v hu => ?_⟩,
    fun u hu => ?_⟩
  · rw [hwl]
    split
    · rw [nodup_append_comm]
      exact nodup_cons.mpr ⟨hnot w, h.parked.nodup w⟩
    · exact h.parked.nodup v
  · rw [hwl, hwait]
    by_cases hv : v = w <;> by_cases hu : u = t
    · subst hv hu; simp
    · subst hv; simp [hu, h.parked.mem_iff]
    · subst hu; simp [hv, hnot v, Ne.symm hv]
    · simp [hv, hu, h.parked.mem_iff]
  · rw [hwait] at hu
    refine (hst u).trans ?_
    split at hu
    · simp [*]
    · rename_i hne
      rw [if_neg hne]
      exact h.parked.blocked u v hu
  · have hu' : (k.thr u).state = .invalid := h.fresh u hu
    have hne : u ≠ t := fun e => hr.ne_invalid (e ▸ hu')
    refine (hst u).trans ?_
    rw [if_neg hne]
    exact hu'

end park

/-! ## Mutexes -/

section mutex

variable {c : Cfg} {X : Set Tid} {k : Kernel} {t : Tid} {m : Mid}

/-- One waiter of `mini_os_mutex_kill_waiters`. -/
def killWaiter (c : Cfg) (b : Bool) (k : Kernel) (w : Tid) : Kernel :=
  syncWakeThread c { k with toSync := k.toSync.modW w fun x => { x with waitMutex := none } } w b

theorem mutexKillWaiters_eq : mutexKillWaiters c k m =
    (k.waiters (.mutex m)).foldl (killWaiter c (!(k.mutex m).obj.timeout)) k := rfl

theorem killWaiter_toSync (b : Bool) : (killWaiter c b k t).toSync =
    (k.toSync.waitUnlink t).modW t fun x =>
      { x with waitMutex := none, waitList := none, waitStatus := b } := by
  simp [killWaiter, syncWakeThread, Sync.modW, Sync.waitUnlink]

theorem Intact.killWaiter (h : Intact c X k) {w : Tid} (hw : w ∉ X)
    (hb : (k.thr w).state = .blocked) (b : Bool) : Intact c X (killWaiter c b k w) := by
  have h1 : Intact c X { k with toSync := k.toSync.modW w fun x => { x with waitMutex := none } } :=
    h.of_sync rfl rfl (fun u => by simp only [modW_wait]; split <;> simp_all) rfl
  exact h1.wake hw hb b

theorem killWaiter_thr_ne (h : Intact c X k) {u w : Tid} (hw : w ∉ X)
    (hb : (k.thr w).state = .blocked) (b : Bool) (hu : u ≠ w) :
    (Os.killWaiter c b k w).thr u = k.thr u :=
  (h.linked.wake hw hb).2 u hu

theorem killWaiter_wait_ne {u w : Tid} (b : Bool) (hu : u ≠ w) :
    (Os.killWaiter c b k w).wait u = k.wait u := by
  simp [Os.killWaiter, wake_wait_ne _ hu, modW_wait_ne _ hu]

/-- No thread on its way out is on a wait list. -/
def Clear (X : Set Tid) (k : Kernel) : Prop := ∀ t ∈ X, (k.wait t).waitList = none

section
variable (h : Intact c X k) (hc : Clear X k)
include h hc

theorem Intact.waiter {w : WaitId} (ht : t ∈ k.waiters w) : t ∉ X ∧ (k.thr t).state = .blocked := by
  have hw := (h.parked.mem_iff w t).mp ht
  refine ⟨fun hX => ?_, h.parked.blocked t w hw⟩
  rw [hc t hX] at hw
  cases hw

/-- What the wake of a waiter keeps, the fold over the waiters keeps. -/
theorem Intact.killWaiters_keeps (m : Mid) {P : Kernel → Prop} (hP : P k)
    (hstep : ∀ b k', ∀ w ∈ k.waiters (.mutex m), Intact c X k' → w ∉ X → (k'.thr w).state = .blocked →
      P k' → P (Os.killWaiter c b k' w)) :
    Intact c X (mutexKillWaiters c k m) ∧ P (mutexKillWaiters c k m) := by
  refine Core.foldl_keeps (P := fun k' => Intact c X k' ∧ P k')
    (Q := fun k' w => w ∉ X ∧ (k'.thr w).state = .blocked) (h.parked.nodup _)
    (fun k' w hm hk hq => ⟨⟨hk.1.killWaiter hq.1 hq.2 _, hstep _ k' w hm hk.1 hq.1 hq.2 hk.2⟩,
      fun u hu hqu => ?_⟩) ⟨h, hP⟩ fun w hw => h.waiter hc hw
  rw [killWaiter_thr_ne hk.1 hq.1 hq.2 _ hu]
  exact hqu

theorem Intact.killWaiters (m : Mid) : Intact c X (mutexKillWaiters c k m) :=
  (h.killWaiters_keeps hc m (P := fun _ => True) trivial fun _ _ _ _ _ _ _ => id).1

theorem killWaiters_kept (m : Mid) {u : Tid} (hu : (k.wait u).waitList ≠ some (.mutex m)) :
    (mutexKillWaiters c k m).thr u = k.thr u ∧ (mutexKillWaiters c k m).wait u = k.wait u := by
  refine (h.killWaiters_keeps hc m (P := fun k' => k'.thr u = k.thr u ∧ k'.wait u = k.wait u)
    ⟨rfl, rfl⟩ fun b k' w hm hi hw hb hk => ?_).2
  have hne : u ≠ w := fun he => hu ((h.parked.mem_iff _ _).mp (he ▸ hm))
  exact ⟨(killWaiter_thr_ne hi hw hb b hne).trans hk.1, (killWaiter_wait_ne b hne).trans hk.2⟩

theorem killOne_kept (m : Mid) {u : Tid} (hu : (k.wait u).waitList = none) :
    (mutexKillOne c k m).thr u = k.thr u ∧ ((mutexKillOne c k m).wait u).waitList = none := by
  have hk := killWaiters_kept h hc m (by rw [hu]; simp)
  refine ⟨hk.1, ?_⟩
  simp only [mutexKillOne, modM_wait, Sync.endLocks, Sync.unhold, hk.2]
  exact hu

theorem Intact.killOne (m : Mid) : Intact c X (mutexKillOne c k m) :=
  (h.killWaiters hc m).of_sync rfl rfl (fun _ => rfl) rfl

/-- What the force-release of one mutex keeps, that of all `t` holds keeps. -/
theorem Intact.killHeld_keeps (t : Tid) {P : Kernel → Prop} (hP : P k)
    (hstep : ∀ k', ∀ m ∈ (k.wait t).holdList, Intact c X k' → Clear X k' → P k' →
      P (mutexKillOne c k' m)) : Intact c X (mutexKillHeld c k t) ∧ P (mutexKillHeld c k t) := by
  have hfold := foldlRecOn (motive := fun k' => (Intact c X k' ∧ P k') ∧ Clear X k') (k.wait t).holdList
    (mutexKillOne c) ⟨⟨h, hP⟩, hc⟩ fun k' hk m hm => ⟨⟨hk.1.1.killOne hk.2 m,
      hstep k' m hm hk.1.1 hk.2 hk.1.2⟩, fun u hu => (killOne_kept hk.1.1 hk.2 m (hk.2 u hu)).2⟩
  exact hfold.1

theorem Intact.killHeld (t : Tid) : Intact c X (mutexKillHeld c k t) :=
  (h.killHeld_keeps hc t (P := fun _ => True) trivial fun _ _ _ _ _ => id).1

theorem killHeld_kept (t : Tid) {u : Tid} (hu : (k.wait u).waitList = none) :
    (mutexKillHeld c k t).thr u = k.thr u ∧ ((mutexKillHeld c k t).wait u).waitList = none := by
  refine (h.killHeld_keeps hc t (P := fun k' => k'.thr u = k.thr u ∧ (k'.wait u).waitList = none)
    ⟨rfl, hu⟩ fun k' m _ hi hc' hk => ?_).2
  obtain ⟨h1, h2⟩ := killOne_kept hi hc' m hk.2
  exact ⟨h1.trans hk.1, h2⟩

end

theorem clear_empty (k : Kernel) : Clear ∅ k := fun t h => absurd h (Set.notMem_empty t)

/-! Each critical section of lock and unlock. What is not a wake, a park or a
propagation writes fields the invariant does not read. -/

section
variable (y : Sync) (r : RefId) (u : Tid)

theorem refRelease_wait : (refRelease y r).wait = y.wait := by cases r <;> rfl

theorem refRelease_waiters : (refRelease y r).waiters = y.waiters := by cases r <;> rfl

theorem syncWaitRefPush_waiters : (syncWaitRefPush y t r).waiters = y.waiters := by
  unfold syncWaitRefPush
  split <;> rfl

theorem syncWaitRefPush_waitList :
    ((syncWaitRefPush y t r).wait u).waitList = (y.wait u).waitList := by
  unfold syncWaitRefPush
  split
  · rfl
  · rw [modW_wait]
    split <;> simp_all

theorem syncWaitRefPop_waitList : ((syncWaitRefPop y t).wait u).waitList = (y.wait u).waitList := by
  rw [syncWaitRefPop, modW_wait]
  split <;> simp_all

theorem setWaitMutex_waitList (o : Option Mid) (u : Tid) :
    ((y.modW t fun x => { x with waitMutex := o }).wait u).waitList = (y.wait u).waitList := by
  rw [modW_wait]
  split <;> simp_all

theorem takeOwnership_waitList : ((takeOwnership y m t).wait u).waitList = (y.wait u).waitList := by
  rw [takeOwnership, Sync.hold, modW_wait, modM_wait]
  split <;> simp_all

theorem endLock_waitList : ((y.endLock m t).wait u).waitList = (y.wait u).waitList := by
  rw [Sync.endLock, modW_wait]
  split <;> simp_all

end

section
variable (h : Intact c ∅ k)
include h

namespace Intact

theorem lockBegin (timeout : BitVec 32) : Intact c ∅ (lockBegin k t m timeout) := by
  unfold Os.lockBegin
  simp only
  split
  · refine Intact.setCall ?_ t _
    exact h.of_sync rfl rfl (fun _ => rfl) rfl
  · exact h

theorem lockFirst (timeout : BitVec 32) : Intact c ∅ (lockFirst c k t m timeout) := by
  unfold Os.lockFirst
  simp only
  split
  · refine Intact.setCall ?_ t _
    exact h.of_sync rfl rfl (takeOwnership_waitList _) rfl
  split
  · split
    · exact h.setCall t _
    · refine Intact.setCall ?_ t _
      exact h.of_sync rfl rfl (fun _ => rfl) rfl
  split
  · exact h.setCall t _
  refine Intact.setCall ?_ t _
  split
  · rename_i o _
    refine (h.propagate (some o)
      (k.thr t).priority (mutexDeadlineOf c (k.thr t))).of_sync rfl ?_ (fun u => ?_) rfl
    · exact syncWaitRefPush_waiters _ _
    · exact (syncWaitRefPush_waitList _ _ u).trans (setWaitMutex_waitList _ _ u)
  · exact h.of_sync rfl (syncWaitRefPush_waiters _ _) (syncWaitRefPush_waitList _ _) rfl

theorem lockSemAcquire (timeout : BitVec 32) : Intact c ∅ (lockSemAcquire k t m timeout) := by
  unfold Os.lockSemAcquire
  simp only
  split
  · refine Intact.setCall ?_ t _
    exact h.of_sync rfl rfl (fun _ => rfl) rfl
  · exact h.setCall t _

theorem lockSemTake (hr : (k.thr t).Runnable) (timeout : BitVec 32) :
    Intact c ∅ (lockSemTake c k t m timeout) := by
  unfold Os.lockSemTake
  split
  · refine Intact.setCall ?_ t _
    exact h.of_sync rfl rfl (fun _ => rfl) rfl
  split
  · exact h.setCall t _
  · rename_i h0
    exact (h.park hr (.mutex m) h0 (.mutexSem m)).setCall t _

theorem waitDone : Intact c ∅ (syncWaitDone k t).2 := by
  refine h.of_sync rfl rfl (fun u => ?_) rfl
  refine (syncWaitRefPop_waitList _ u).trans ?_
  rw [modW_wait]
  split <;> simp_all

theorem lockUnparked : Intact c ∅ (lockUnparked k t m) :=
  h.waitDone.setCall t _

theorem lockSemRelease (ret : Err) : Intact c ∅ (lockSemRelease k t m ret) := by
  refine Intact.setCall ?_ t _
  exact h.of_sync rfl rfl (fun _ => rfl) rfl

theorem lockLast (ret : Err) : Intact c ∅ (lockLast c k t m ret) := by
  have hy : ∀ u, ((((syncWaitRefPop k.toSync t).modW t
      fun x => { x with waitMutex := none }).wait u).waitList) = (k.wait u).waitList := fun u =>
    (setWaitMutex_waitList _ _ u).trans (syncWaitRefPop_waitList _ u)
  unfold Os.lockLast
  simp only
  refine Intact.setCall ?_ t _
  split
  · exact (h.propagate (some t) c.priority 0).of_sync rfl rfl
      (fun u => (takeOwnership_waitList _ u).trans (hy u)) rfl
  · split
    · exact (h.propagate _ c.priority 0).of_sync rfl rfl hy rfl
    · exact h.of_sync rfl rfl hy rfl
  · exact h.of_sync rfl rfl hy rfl

theorem lockEnd : Intact c ∅ (lockEnd k t m) := by
  refine Intact.setCall ?_ t _
  exact h.of_sync rfl rfl (fun _ => rfl) rfl

theorem unlockFirst : Intact c ∅ (unlockFirst c k t m) := by
  unfold Os.unlockFirst
  simp only
  split
  · exact h
  split
  · exact h.of_sync rfl rfl (fun _ => rfl) rfl
  · refine Intact.setCall ?_ t _
    exact (h.propagate (some t) c.priority 0).of_sync rfl rfl
      (fun u => (endLock_waitList _ u).trans rfl) rfl

theorem unlockGive : Intact c ∅ (unlockGive c k t m) := by
  unfold Os.unlockGive
  simp only
  refine Intact.setCall ?_ t _
  split
  · rename_i w _ hw
    have hb := h.waiter (clear_empty k) (t := w) (by rw [hw]; simp)
    exact h.wake hb.1 hb.2 true
  · split
    · exact h
    · exact h.of_sync rfl rfl (fun _ => rfl) rfl

theorem deleteCommon (isStatic : Bool) : Intact c ∅ (mutexDeleteCommon c k m isStatic).2 := by
  unfold Os.mutexDeleteCommon
  split
  · simp only
    refine Intact.of_sync (k := if k.waiters (.mutex m) ≠ [] ∨ (k.mutex m).owner ≠ none then _ else k)
      ?_ rfl rfl (fun _ => rfl) rfl
    split
    · exact ((h.killWaiters (clear_empty k) m).propagate _ c.priority 0).of_sync rfl rfl
        (fun _ => rfl) rfl
    · exact h
  · exact h

end Intact

end

end mutex

end MiniTree.Os
