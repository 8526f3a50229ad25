import MiniTree.Os.Integrity

/-!
# List integrity of the thread API

`Intact` is kept by the functions of `thread.c`. Two of them act on a state they
tested before they masked interrupts: `ResumeSafe` and `DeleteSafe` say that the
test still holds in the critical section.
-/

namespace MiniTree.Os

open MiniTree.Core Set Option List BitVec Function

section thread

variable {c : Cfg} {k : Kernel} {t : Tid} {s : Sched}

theorem Intact.delay (h : Intact c ∅ k) (hr : (k.thr t).Runnable) (ticks : BitVec 32) :
    Intact c ∅ (scheduleDelay c k t ticks) := by
  unfold scheduleDelay
  split
  · exact h
  rename_i h0
  have hn : ticks.toNat ≠ 0 := fun e => h0 (eq_of_toNat_eq e)
  refine h.of_one (h.not_waiting hr.ne_blocked) hr.ne_invalid
    ((h.linked.remove (notMem_empty t) hr).wheelInsert (notMem_empty t) hn) fun u hu => ?_
  rw [wheelInsert_state _ hn, if_neg hu, remove_thr]

theorem dlFinish_accounted (b : Bool) (x : Tcb) : Accounted x (dlFinish b x) := by
  have hf : Accounted x (dlReportFinish x) := accounted_mk ..
  have hd : ∀ y : Tcb, Accounted y { y with dlJobDone := true } := fun y => accounted_mk ..
  unfold dlFinish
  cases b
  · exact hf.trans (hd _)
  · exact (hf.trans (dlReportMiss_accounted _)).trans (hd _)

/-- The TCB of a thread that is on no wait list is set up anew. -/
theorem Intact.renew {X Y : Set Tid} {n : Nat} (h : Intact c X k) (hw : (k.wait t).waitList = none)
    (hl : Linked c Y s) (hthr : ∀ u, u ≠ t → s.thr u = k.thr u)
    (hn : ∀ u, n ≤ u → u = t ∧ (s.thr t).state = .invalid ∨ u ≠ t ∧ k.nThread ≤ u) : Intact c Y { k with
      toSched := s, toSync := k.toSync.modW t fun _ => .init, nThread := n } := by
  have hwait : ∀ u, ((k.toSync.modW t fun _ => .init).wait u).waitList = (k.wait u).waitList := by
    intro u
    rw [modW_wait]
    split
    · rename_i hu
      rw [hu, hw]
      rfl
    · rfl
  refine ⟨hl, ⟨h.parked.nodup, fun w u => ?_, fun u w hu => ?_⟩, fun u hu => ?_⟩
  · rw [hwait]
    exact h.parked.mem_iff w u
  · rw [hwait] at hu
    have hne : u ≠ t := by
      rintro rfl
      rw [hw] at hu
      cases hu
    rw [hthr u hne]
    exact h.parked.blocked u w hu
  · rcases hn u hu with ⟨rfl, hi⟩ | ⟨hne, hu⟩
    · exact hi
    · rw [hthr u hne]
      exact h.fresh u hu

section
variable (h : Intact c ∅ k) (p : Nat)
include h

/-- Fields change, the state and the home list do not. -/
theorem Intact.modT {f : Tcb → Tcb}
    (hh : home c (f (k.thr t)) = home c (k.thr t)) (hp : (f (k.thr t)).priority < c.priority)
    (hw : (f (k.thr t)).wheelSlot = (k.thr t).wheelSlot) (hs : (f (k.thr t)).state = (k.thr t).state) :
    Intact c ∅ { k with toSched := k.toSched.modT t f } := by
  refine h.of_sched (h.linked.modT hh hp hw fun hb => hs.trans hb) rfl rfl fun u _ => ?_
  simp only [modT_thr]
  split
  · rename_i hu
    rw [hu, hs]
  · rfl

theorem Intact.account {f : Tcb → Tcb} (hf : Accounted (k.thr t) (f (k.thr t))) :
    Intact c ∅ { k with toSched := k.toSched.modT t f } :=
  h.modT hf.home (hf.priority ▸ h.linked.prio_lt t) hf.slot hf.state

theorem Intact.jobFinish : Intact c ∅ (deadlineJobFinish k t) := by
  unfold deadlineJobFinish
  simp only
  split
  · exact h
  · exact h.account (dlFinish_accounted _ _)

theorem Intact.spawn {s : Sched} (hl : s.lists = k.lists)
    (ht : s.thr = k.thr) (hg : s.gPriority = k.gPriority) {x : Tcb} (hx : x.state = .init)
    (hp : x.priority < c.priority) (hw : x.wheelSlot = c.tickWheel) : Intact c ∅ { k with
      toSched := addThreadToReadyRunningList c (s.modT k.nThread fun _ => x) k.nThread
      toSync := k.toSync.modW k.nThread fun _ => .init
      nThread := k.nThread + 1 } := by
  have hinv := h.fresh k.nThread le_rfl
  have hn := notMem_empty k.nThread
  have hls : Linked c ∅ s := h.linked.congr hl ht hg
  have hd := (hls.detached hn (by rw [ht]; simp [home, hinv])).modT_off
    (mem_insert k.nThread ∅) (f := fun _ => x) hp
  have hnr : ¬ ((s.modT k.nThread fun _ => x).thr k.nThread).Runnable := by simp [Tcb.Runnable, hx]
  have hthr : ∀ u, u ≠ k.nThread →
      (addThreadToReadyRunningList c (s.modT k.nThread fun _ => x) k.nThread).thr u = k.thr u := by
    intro u hu
    rw [add_thr hnr (by simpa using hp), update_of_ne hu, modT_thr_ne _ hu, ht]
  exact h.renew (h.not_waiting (by rw [hinv]; simp)) (hd.add hn hnr (by simp [hw])) hthr
    fun u hu => .inr (by omega)

theorem Intact.create : Intact c ∅ (threadCreate c k p) := by
  unfold threadCreate
  split
  · exact h
  · rename_i hp
    exact h.spawn rfl rfl rfl rfl
      (by simpa [threadInit] using hp) rfl

theorem Intact.createDl (r d p : Nat) : Intact c ∅ (deadlineThreadCreate c k r d p) := by
  unfold deadlineThreadCreate
  split
  · exact h
  split
  · exact h
  rename_i s hs
  obtain ⟨-, ⟨⟩⟩ := ite_none_left_eq_some.mp hs
  exact h.spawn (setThisBw_lists _ _) (setThisBw_thr _ _) (setThisBw_gPriority _ _) rfl
    c.priority_pos rfl

end

/-- The bandwidth account is no concern of the lists. -/
theorem dlThreadRelease_kept (s : Sched) : (dlThreadRelease c s t).lists = s.lists ∧
    (dlThreadRelease c s t).thr = s.thr ∧ (dlThreadRelease c s t).gPriority = s.gPriority := by
  unfold dlThreadRelease dlBandwidthRelease
  simp only
  split
  · exact ⟨setThisBw_lists _ _, setThisBw_thr _ _, setThisBw_gPriority _ _⟩
  · exact ⟨rfl, rfl, rfl⟩

theorem dlThreadRelease_thr (s : Sched) : (dlThreadRelease c s t).thr = s.thr :=
  (dlThreadRelease_kept s).2.1

theorem Intact.exit (h : Intact c ∅ k) (hr : (k.thr t).Runnable) : Intact c ∅ (threadExit c k t) := by
  have hnw := h.not_waiting hr.ne_blocked
  have hk := h.killHeld (clear_empty k) t
  have hkept := killHeld_kept h (clear_empty k) t hnw
  have hn := notMem_empty t
  have hr' : ((mutexKillHeld c k t).thr t).Runnable := by rw [hkept.1]; exact hr
  have hslot := hk.linked.slot_of_not_blocked hn hr'.ne_blocked
  unfold threadExit
  simp only
  obtain ⟨hl, ht, hg⟩ := dlThreadRelease_kept
    (removeThreadFromReadyRunningList c (mutexKillHeld c k t).toSched t)
  refine hk.of_one hkept.2 hr'.ne_invalid
    (((hk.linked.remove hn hr').congr hl ht hg).defunct hn ?_) fun u hu => ?_
  · rw [ht, remove_thr]
    exact hslot
  · rw [listTail_thr, modT_thr_ne _ hu, ht, remove_thr]

/-- The end of a teardown: the storage of a thread that is linked nowhere is given
back. -/
theorem Intact.free (h : Intact c {t} k) (hw : (k.wait t).waitList = none)
    (hl : s.lists = k.lists) (ht : s.thr = k.thr) (hg : s.gPriority = k.gPriority) : Intact c ∅ { k with
      toSched := s.modT t fun _ => .free c
      toSync := k.toSync.modW t fun _ => .init } := by
  have hn := notMem_empty t
  have h1 : Linked c (insert t ∅) s := by
    rw [insert_empty_eq]
    exact h.linked.congr hl ht hg
  have hd := (h1.modT_off (mem_insert t ∅) (f := fun _ => .free c) c.priority_pos).settle hn
    (by simp [home, Tcb.free]) (by simp [Tcb.free, threadInit])
  refine h.renew hw hd (fun u hu => ?_) fun u hu => ?_
  · rw [modT_thr_ne _ hu, ht]
  · rw [modT_thr_self]
    exact (eq_or_ne u t).imp (⟨·, rfl⟩) (⟨·, hu⟩)

theorem Linked.reapOne (h : Linked c ∅ s) (ht : (s.thr t).state = .terminated) :
    Linked c ∅ (reapOne c s t) := by
  have hn := notMem_empty t
  have hd := (h.unlink hn (by simp [home, ht])).modT_off (mem_insert t ∅)
    (f := fun _ => .free c) c.priority_pos
  exact hd.settle hn (by simp [home, Tcb.free]) (by simp [Tcb.free, threadInit])

theorem reapOne_thr_ne {u : Tid} (hu : u ≠ t) : (reapOne c s t).thr u = s.thr u := by
  rw [reapOne, modT_thr_ne _ hu]
  rfl

theorem Linked.terminated_of_defunct (h : Linked c ∅ s) (ht : t ∈ s.lists .defunct) :
    (s.thr t).state = .terminated :=
  home_eq_defunct ((h.mem_iff _ _ (notMem_empty t)).mp ht)

/-- What giving back one corpse keeps, the walk over the queue keeps. -/
theorem Linked.reap_keeps {P : Sched → Prop} (h : Linked c ∅ s) (hP : P s)
    (hstep : ∀ s', ∀ t ∈ s.lists .defunct, (s'.thr t).state = .terminated → P s' →
      P (Os.reapOne c s' t)) :
    Linked c ∅ ((s.lists .defunct).foldl (Os.reapOne c) s) ∧
      P ((s.lists .defunct).foldl (Os.reapOne c) s) := by
  refine Core.foldl_keeps (P := fun s' => Linked c ∅ s' ∧ P s')
    (h.nodup _) (fun s' t hm hs ht =>
      ⟨⟨hs.1.reapOne ht, hstep s' t hm ht hs.2⟩, fun u hu hqu => ?_⟩) ⟨h, hP⟩
    fun t => h.terminated_of_defunct
  rw [reapOne_thr_ne hu]
  exact hqu

theorem Intact.reap (h : Intact c ∅ k) : Intact c ∅ (threadDefunctExecute c k) := by
  have hr := h.linked.reap_keeps (P := fun s' => ∀ u, u ∉ k.lists .defunct → s'.thr u = k.thr u)
    (fun _ _ => rfl) fun s' t ht _ hs u hu =>
      (reapOne_thr_ne (ne_of_mem_of_not_mem ht hu).symm).trans (hs u hu)
  refine h.of_sched hr.1 rfl rfl fun u hu => ?_
  have hnot : u ∉ k.lists .defunct := by
    intro hm
    have ht := h.linked.terminated_of_defunct hm
    rcases hu with hu | hu
    · rw [ht] at hu
      cases hu
    · exact hu (h.not_waiting (by rw [ht]; simp))
  exact congrArg Tcb.state (hr.2 u hnot)

/-- A BLOCKED thread's sync wait is cancelled: it stays BLOCKED and waits on nothing. -/
theorem Intact.cancelWait (h : Intact c ∅ k) (hb : (k.thr t).state = .blocked)
    {f : SyncTcb → SyncTcb} (hf : ∀ x, (f x).waitList = x.waitList) :
    Intact c ∅ (cancelWait c k t f) ∧ ((cancelWait c k t f).wait t).waitList = none ∧
      Reranked k.toSched (cancelWait c k t f).toSched := by
  unfold Os.cancelWait
  split
  · rename_i hw
    exact ⟨h, hw, .refl _⟩
  simp only
  have hp := propagate_linked (y := (k.toSync.waitUnlink t).modW t
    fun x => f { x with waitList := none, waitMutex := none }) h.linked
    ((waitedMutex k.toSync t).bind fun m => (((k.toSync.waitUnlink t).modW t
      fun x => f { x with waitList := none, waitMutex := none }).mutex m).owner) c.priority 0
  have hwl : (f { k.wait t with waitList := none, waitMutex := none }).waitList = none := hf _
  refine ⟨h.unpark hwl hp.1 (fun u _ => hp.2.state u) (by rw [hb]; simp), ?_, hp.2⟩
  rw [modW_wait_self]
  exact hwl

/-- A BLOCKED target of `mini_os_thread_suspend`, its remaining delay stored and its wait
cancelled. -/
def suspendWait (c : Cfg) (k : Kernel) (t : Tid) : Kernel :=
  Os.cancelWait c { k with
    toSched := k.toSched.modT t fun x => { x with resumeTime := wheelRemain c k.toSched t } } t
    fun x => { x with waitStatus := false }

theorem Intact.suspendWait (h : Intact c ∅ k) (hs : (k.thr t).state = .blocked) :
    Intact c ∅ (suspendWait c k t) ∧ ((suspendWait c k t).wait t).waitList = none ∧
      ((suspendWait c k t).thr t).state = .blocked := by
  have h1 := h.modT (f := fun x => { x with resumeTime := wheelRemain c k.toSched t })
    (home_congr rfl rfl rfl rfl rfl) (h.linked.prio_lt t) rfl rfl
  obtain ⟨h2, hw, hk⟩ := h1.cancelWait (t := t) (f := fun x => { x with waitStatus := false })
    (by simpa using hs) (fun _ => rfl)
  refine ⟨h2, hw, (hk.state t).trans ?_⟩
  simpa using hs

theorem Intact.suspend (h : Intact c ∅ k) : Intact c ∅ (threadSuspend c k t).2 := by
  have hn := notMem_empty t
  have hrun : (k.thr t).Runnable → Intact c ∅ { k with
      toSched := (removeThreadFromReadyRunningList c k.toSched t).modT t
        fun x => { x with state := .suspended } } := by
    intro hr
    have hslot := h.linked.slot_of_not_blocked hn hr.ne_blocked
    have hd := (h.linked.remove hn hr).modT_off (mem_insert t ∅)
      (f := fun x => { x with state := .suspended }) (by rw [remove_thr]; exact h.linked.prio_lt t)
    refine h.of_one (h.not_waiting hr.ne_blocked) hr.ne_invalid (hd.settle hn ?_ ?_) fun u hu => ?_
    · simp [home]
    · simp only [modT_thr_self, remove_thr]
      omega
    · rw [modT_thr_ne _ hu, remove_thr]
  unfold threadSuspend
  split
  · exact h
  · rename_i hs
    exact hrun (.inl hs)
  · rename_i hs
    exact hrun (.inr hs)
  · rename_i hs
    obtain ⟨h2, hw, hb⟩ := h.suspendWait hs
    have hd := (h2.linked.unlink hn (by simp [home_blocked hb])).modT_off (mem_insert t ∅)
      (f := fun x => { x with wheelSlot := c.tickWheel, round := 0, state := .suspended })
      (h2.linked.prio_lt t)
    refine h2.of_one hw (by rw [hb]; simp) (hd.settle hn ?_ ?_) fun u hu => ?_
    · simp [home]
    · simp
    · rw [modT_thr_ne _ hu]
      rfl
  · exact h

/-- The test of `mini_os_thread_resume` still holds, or the add refuses. -/
def ResumeSafe (k : Kernel) (t : Tid) : Prop :=
  (k.thr t).state = .suspended ∨ ((k.thr t).Runnable ∧ (0#32).slt (k.thr t).resumeTime = false)
  deriving Decidable

theorem toNat_ne_zero_of_pos {d : BitVec 32} (hpos : (0#32).slt d = true) : d.toNat ≠ 0 := by
  intro h0
  rw [show d = 0#32 from eq_of_toNat_eq h0] at hpos
  simp at hpos

theorem Intact.resume (h : Intact c ∅ k) (hs : ResumeSafe k t) : Intact c ∅ (threadResume c k t) := by
  have hn := notMem_empty t
  unfold threadResume
  simp only
  rcases hs with hs | ⟨hr, hrt⟩
  · have hd := h.linked.detached hn (by simp [home, hs])
    have hnw := h.not_waiting (by rw [hs]; simp)
    have hi : (k.thr t).state ≠ .invalid := by rw [hs]; simp
    split
    · rename_i hpos
      have hz := toNat_ne_zero_of_pos hpos
      have hl := hd.wheelInsert hn hz
      have hl' := hl.modT (f := fun x => { x with resumeTime := 0 })
        (home_congr rfl rfl rfl rfl rfl) (hl.prio_lt t) rfl id
      refine h.of_one hnw hi hl' fun u hu => ?_
      rw [modT_thr_ne _ hu, wheelInsert_state _ hz, if_neg hu]
    · have hnr : ¬ (k.thr t).Runnable := by simp [Tcb.Runnable, hs]
      refine h.of_one hnw hi (hd.add hn hnr (h.linked.slot_of_not_blocked hn (by rw [hs]; simp)))
        fun u hu => ?_
      rw [add_thr hnr (h.linked.prio_lt t), update_of_ne hu]
  · rw [if_neg (by rw [hrt]; simp), add_of_runnable hr]
    exact h

theorem wheelRemove_thr_ne {u : Tid} (hu : u ≠ t) : (wheelRemove c s t).thr u = s.thr u := by
  unfold wheelRemove
  split
  · rfl
  · rw [modT_thr_ne _ hu]
    rfl

theorem Intact.unlinkBlocked (h : Intact c ∅ k) (hb : (k.thr t).state = .blocked) :
    Intact c {t} (threadUnlinkBlocked c k t) ∧
      ((threadUnlinkBlocked c k t).wait t).waitList = none ∧
      ((threadUnlinkBlocked c k t).thr t).state = .blocked := by
  have hn := notMem_empty t
  obtain ⟨h2, hw, hk⟩ := h.cancelWait hb (f := id) (fun _ => rfl)
  have hb2 : ((Os.cancelWait c k t id).thr t).state = .blocked := by rw [hk.state t]; exact hb
  unfold threadUnlinkBlocked
  simp only
  split
  · rename_i hlt
    have hr : wheelRemove c (Os.cancelWait c k t id).toSched t =
        ((Os.cancelWait c k t id).toSched.listRemove t).modT t
          fun x => { x with round := 0, wheelSlot := c.tickWheel } := by simp [wheelRemove, hb2]
    have hl : Linked c {t} (wheelRemove c (Os.cancelWait c k t id).toSched t) := by
      rw [hr, ← insert_empty_eq]
      exact (h2.linked.unlink hn (by simp [home_blocked hb2, hlt])).modT_off (mem_insert t ∅)
        (h2.linked.prio_lt t)
    have hst : ∀ u, ((wheelRemove c (Os.cancelWait c k t id).toSched t).thr u).state =
        ((Os.cancelWait c k t id).thr u).state := by
      intro u
      by_cases hu : u = t
      · subst hu
        rw [hr, modT_thr_self]
        rfl
      · rw [wheelRemove_thr_ne hu]
    exact ⟨⟨hl, ⟨h2.parked.nodup, h2.parked.mem_iff, fun u w hu => (hst u).trans
      (h2.parked.blocked u w hu)⟩, fun u hu => (hst u).trans (h2.fresh u hu)⟩, hw, (hst t).trans hb2⟩
  · rename_i hge
    refine ⟨⟨?_, h2.parked, h2.fresh⟩, hw, hb2⟩
    rw [← insert_empty_eq]
    exact h2.linked.detached hn (by simp [home_blocked hb2, hge])

theorem syncWaitRefDropAll_waiters (y : Sync) : (syncWaitRefDropAll y t).waiters = y.waiters := by
  unfold syncWaitRefDropAll
  exact foldlRecOn (motive := fun y' => y'.waiters = y.waiters) _ _ (modW_waiters ..)
    fun y' h r _ => (refRelease_waiters y' r).trans h

theorem syncWaitRefDropAll_wait (y : Sync) (u : Tid) : (syncWaitRefDropAll y t).wait u =
    if u = t then { y.wait t with waitRefs := [] } else y.wait u := by
  unfold syncWaitRefDropAll
  refine foldlRecOn (motive := fun y' => Sync.wait y' u = _) _ _ (modW_wait ..) ?_
  intro y' h r _
  rw [refRelease_wait, h]

/-- The test of `mini_os_thread_delete` still holds. -/
def DeleteSafe (k : Kernel) (t : Tid) : Prop := (k.thr t).state ≠ .terminated
  deriving Decidable

theorem Intact.unlink (h : Intact c ∅ k) (hs : DeleteSafe k t) :
    Intact c {t} (threadUnlink c k t) ∧ ((threadUnlink c k t).wait t).waitList = none := by
  have hn := notMem_empty t
  have hrun : (k.thr t).Runnable →
      Intact c {t} { k with toSched := removeThreadFromReadyRunningList c k.toSched t } ∧
        (k.wait t).waitList = none := by
    intro hr
    refine ⟨⟨?_, { h.parked with blocked := fun u w hu => ?_ }, fun u hu => ?_⟩,
      h.not_waiting hr.ne_blocked⟩
    · rw [← insert_empty_eq]
      exact h.linked.remove hn hr
    · simp only [remove_thr]
      exact h.parked.blocked u w hu
    · simp only [remove_thr]
      exact h.fresh u hu
  have hother : home c (k.thr t) = none → (k.thr t).state ≠ .blocked →
      Intact c {t} k ∧ (k.wait t).waitList = none := by
    intro hh hb
    refine ⟨⟨?_, h.parked, h.fresh⟩, h.not_waiting hb⟩
    rw [← insert_empty_eq]
    exact h.linked.detached hn hh
  unfold threadUnlink
  split
  · rename_i hst
    exact hrun (.inl hst)
  · rename_i hst
    exact hrun (.inr hst)
  · rename_i hst
    exact ⟨(h.unlinkBlocked hst).1, (h.unlinkBlocked hst).2.1⟩
  · rename_i h1 h2 h3
    refine hother ?_ h3
    unfold home
    split <;> first | rfl | simp_all [DeleteSafe]

/-- A thread that left its lists drops the references of the wait it was in. -/
theorem Intact.dropRefs (h : Intact c {t} k) (hw : (k.wait t).waitList = none) :
    Intact c {t} { k with toSync := syncWaitRefDropAll k.toSync t } ∧
      Clear {t} { k with toSync := syncWaitRefDropAll k.toSync t } := by
  have hwait : ∀ u, ((syncWaitRefDropAll k.toSync t).wait u).waitList = (k.wait u).waitList := by
    intro u
    rw [syncWaitRefDropAll_wait]
    split <;> simp_all
  refine ⟨h.of_sync rfl (syncWaitRefDropAll_waiters _) hwait rfl, ?_⟩
  rintro u rfl
  exact (hwait u).trans hw

theorem Intact.delete (h : Intact c ∅ k) (hs : DeleteSafe k t) : Intact c ∅ (threadDelete c k t) := by
  obtain ⟨h1, hw1⟩ := h.unlink hs
  unfold threadDelete
  generalize threadUnlink c k t = k1 at h1 hw1
  simp only
  obtain ⟨h2, hc2⟩ := h1.dropRefs hw1
  have h3 := h2.killHeld hc2 t
  have hw3 := (killHeld_kept h2 hc2 t (hc2 t rfl)).2
  obtain ⟨hl, ht, hg⟩ := dlThreadRelease_kept
    (mutexKillHeld c { k1 with toSync := syncWaitRefDropAll k1.toSync t } t).toSched
  exact h3.free hw3 hl ht hg

/-! Changes of a thread's parameters. -/

theorem Intact.setPriority (h : Intact c ∅ k) (p : Nat) : Intact c ∅ (threadSetPriority k t p) :=
  h.modT (home_congr rfl rfl rfl rfl rfl) (h.linked.prio_lt t) rfl rfl

theorem storeDeadline_kept (now d : BitVec 32) (x : Tcb) :
    (storeDeadline now d x).state = x.state ∧ (storeDeadline now d x).priority = x.priority ∧
      (storeDeadline now d x).wheelSlot = x.wheelSlot := by
  unfold storeDeadline
  split <;> exact ⟨rfl, rfl, rfl⟩

section
variable (h : Intact c ∅ k)
include h

theorem Intact.setDeadline (d : BitVec 32) : Intact c ∅ (threadSetDeadline c k t d) := by
  obtain ⟨hs, hp, hw⟩ := storeDeadline_kept k.globalTick d (k.thr t)
  have hp' : (storeDeadline k.globalTick d (k.thr t)).priority < c.priority :=
    hp ▸ h.linked.prio_lt t
  unfold threadSetDeadline
  split
  · rename_i hr
    refine h.of_one (h.not_waiting hr.ne_blocked) hr.ne_invalid
      (h.linked.relink (notMem_empty t) hr hp' hw) fun u hu => ?_
    rw [relink_thr_ne hp' hu]
  · rename_i hr
    exact h.modT (home_congr_idle hr hs hw) hp' hw hs

theorem Intact.setThisBw (bw : Nat) : Intact c ∅ { k with toSched := k.toSched.setThisBw bw } :=
  h.of_sched (h.linked.congr (setThisBw_lists _ _) (setThisBw_thr _ _) (setThisBw_gPriority _ _))
    rfl rfl fun _ _ => rfl

theorem Intact.reserve {r p : Nat}
    (hs : dlBandwidthReserve k.toSched r p = some s) : Intact c ∅ { k with toSched := s } := by
  obtain ⟨-, ⟨⟩⟩ := ite_none_left_eq_some.mp hs
  exact h.setThisBw _

theorem Intact.release (r p : Nat) :
    Intact c ∅ { k with toSched := dlBandwidthRelease k.toSched r p } := by
  rw [dlBandwidthRelease]
  exact h.setThisBw _

end

theorem Intact.getD {o : Option Sched} (h : Intact c ∅ { k with toSched := s })
    (ho : ∀ s₁, o = some s₁ → Intact c ∅ { k with toSched := s₁ }) :
    Intact c ∅ { k with toSched := o.getD s } := by
  cases o with
  | none => exact h
  | some s₁ => exact ho s₁ rfl

theorem Intact.renegotiate (h : Intact c ∅ { k with toSched := s }) (x : Tcb) (r p : Nat) :
    Intact c ∅ { k with toSched := dlRenegotiate s t x r p } := by
  refine h.getD fun s1 hs => ?_
  rcases or_eq_some_iff.mp hs with hn | ⟨-, ho⟩
  · obtain ⟨s2, h2, rfl⟩ := map_eq_some_iff.mp hn
    have h1 := h.reserve h2
    exact h1.modT
      (home_congr rfl rfl rfl rfl rfl) (h1.linked.prio_lt t) rfl rfl
  · exact h.reserve ho

theorem Intact.setBandwidth (h : Intact c ∅ k) (r p : Nat) :
    Intact c ∅ (deadlineThreadSetBandwidth k t r p) := by
  unfold deadlineThreadSetBandwidth
  extract_lets x r' p'
  split_ifs
  · exact h
  · exact h
  · exact h
  · exact (h.release x.dlRunTime x.dlPeriod).renegotiate x r' p'

end thread

end MiniTree.Os
