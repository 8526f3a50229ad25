import MiniTree.Os.Inheritance

/-!
# Priority inheritance in the critical sections of a mutex

Every critical section of `mini_os_mutex_lock` and `mini_os_mutex_unlock` keeps `Inherits`.
The boost is given in the first critical section of a lock and the thread is parked in a
later one, so the park has a condition, `ParkSafe`: the thread's `wait_mutex` names the
mutex and the owner of that moment runs at least as urgently.

`ShortChains` is what the loop bound of `mini_os_mutex_propagate` covers.
-/

namespace MiniTree.Os

open MiniTree.Core Function List Nat Option
open Inherits (setCall leave sync propagate)

/-- No chain of owners is longer than the loop bound. -/
def ShortChains (c : Cfg) (k : Kernel) : Prop :=
  ∀ t < k.nThread, chainEnds k.toSync c.piChainMax t = true

instance (c : Cfg) (k : Kernel) : Decidable (ShortChains c k) :=
  inferInstanceAs (Decidable (∀ t < _, _))

/-- A lock that is about to park finds its boost in place. -/
def ParkSafe (k : Kernel) (t : Tid) : Call → Prop
  | .lockWait m timeout => (k.mutex m).count = 0 → timeout ≠ 0 → (k.wait t).waitMutex = some m ∧
        ∀ o ∈ (k.mutex m).owner, (k.thr o).priority ≤ (k.thr t).priority
  | _ => True

instance (k : Kernel) (t : Tid) : (call : Call) → Decidable (ParkSafe k t call)
  | .lockWait _ _ => inferInstanceAs (Decidable (_ → _ → _ ∧ ∀ o ∈ _, _))
  | .none | .lockEnter _ _ | .lockTake _ _ | .lockParked _ | .lockTaken _ _ | .lockExit _ _
  | .lockRelease _ _ | .unlockGive _ | .objParked _ | .resume _ | .delete _
  | .recompute _ => inferInstanceAs (Decidable True)

theorem Owned.owner_lt {y : Sync} {nT nM : Nat} (h : Owned y nT nM) {m : Mid} {o : Tid}
    (ho : (y.mutex m).owner = some o) : o < nT := by
  by_contra hge
  have hm := (h.hold m o).mpr ho
  rw [h.freshT o (not_lt.mp hge)] at hm
  cases hm

theorem Owned.lt_of_live {y : Sync} {nT nM : Nat} (h : Owned y nT nM) {m : Mid}
    (hr : (y.mutex m).reclaimed = false) : m < nM := by
  by_contra hge
  rw [h.freshM m (not_lt.mp hge)] at hr
  cases hr

/-! ## Parts of the sections -/

section parts

variable {c : Cfg} {y : Sync} {k : Kernel} {nM : Nat} {but : Option Tid} {t u : Tid} {m : Mid}

theorem WaitsKept.refPush (r : RefId) : WaitsKept y (syncWaitRefPush y t r) nM but := by
  unfold syncWaitRefPush
  split
  · exact .refl _ _ _
  · exact .modW (.inr rfl) (fun _ => id) fun _ => .inl

theorem WaitsKept.refPop : WaitsKept y (syncWaitRefPop y t) nM but :=
  .modW (.inr rfl) (fun _ => id) fun _ => .inl

theorem WaitsKept.refRelease (r : RefId) : WaitsKept y (refRelease y r) nM but := by
  cases r with
  | mutex m =>
    have hk := mutexObjRelease_kept (y.mutex m)
    refine .modM (fun _ o _ ho => ?_) fun _ => hk.count
    rcases hk.owner with he | ⟨-, he⟩
    · exact he.symm.trans ho
    · rw [he] at ho
      cases ho
  | mutexSem m =>
    exact .modM (f := fun mx => { mx with semObj := objDrop mx.semObj }) (fun _ _ _ => id)
      fun _ => le_rfl
  | obj n => exact .refl _ _ _

theorem WaitsKept.refDropAll : WaitsKept y (syncWaitRefDropAll y t) nM but :=
  List.foldlRecOn (motive := (WaitsKept y · nM but)) _ _
    (.modW (.inr rfl) (fun _ => id) fun _ => .inl) fun _ h r _ => h.trans (.refRelease r)

/-- `t` becomes the owner of a mutex nobody waits for, or is the exempted thread. -/
theorem WaitsKept.own (h : y.waiters (.mutex m) = [] ∨ but = some t) :
    WaitsKept y (takeOwnership y m t) nM but := by
  have h1 : WaitsKept y (y.modM m fun mx => { mx with owner := some t, depth := 1 }) nM but := by
    refine .modM (fun hne o ho he => ?_)
      fun _ => le_rfl
    rcases h with h | h
    · exact absurd h hne
    · rw [h] at ho
      exact absurd he.symm ho
  exact h1.trans (.modW (f := fun x => { x with
    holdList := x.holdList ++ [m], locks := x.locks ++ [m] }) (.inr rfl)
    (fun _ hh => absurd hh (by simp)) fun _ => .inl)

/-- The `hold_node` of `m` leaves the list it is on. -/
theorem WaitsKept.unhold (h : ∀ u, some u ≠ but → m ∉ (y.wait u).holdList) :
    WaitsKept y (y.unhold m) nM but := by
  refine ⟨fun _ _ => id, fun _ _ _ => rfl, fun _ _ _ _ => id, fun _ _ => le_rfl, fun u hu hh => ?_,
    fun _ _ => .inl⟩
  have he : (y.wait u).holdList.erase m = [] := hh
  rwa [erase_of_not_mem (h u hu)] at he

theorem WaitsKept.unpark {f : SyncTcb → SyncTcb}
    (hp : ∀ w, (y.waiters w).Nodup) (hf : ∀ x, (f x).holdList = x.holdList ∧ (f x).call = x.call) :
    WaitsKept y ((y.waitUnlink t).modW t f) nM but := by
  have h0 : WaitsKept y (y.waitUnlink t) nM but :=
    ⟨fun _ _ => mem_of_mem_erase, fun _ _ _ => rfl, fun _ _ _ _ => id, fun _ _ => le_rfl,
      fun _ _ => id, fun _ _ => .inl⟩
  obtain ⟨h1, h2⟩ := hf (y.wait t)
  refine h0.trans (.modW (.inl fun m => (hp _).not_mem_erase) (fun _ => ?_) fun m => ?_)
  · rw [waitUnlink_wait, h1]
    exact id
  · rw [waitUnlink_wait, h2]
    exact .inl

theorem SameRank.wake {s : Sched} (hb : (s.thr t).state = .blocked) :
    SameRank s (wakeNode c s t) := by
  unfold wakeNode
  split
  · refine SameRank.wheelRemove.trans (.add ?_)
    simp [Os.wheelRemove, hb]
  · exact .add (by simp [hb])

theorem Inherits.wake (h : Inherits c k but) (hp : ∀ w, (k.waiters w).Nodup)
    (hb : (k.thr t).state = .blocked) (b : Bool) : Inherits c (syncWakeThread c k t b) but :=
  h.frame (.unpark (f := fun x => { x with waitList := none, waitStatus := b }) hp
    fun _ => ⟨rfl, rfl⟩) le_rfl (.wake hb)

theorem SameRank.park {s : Sched} (hd : (s.thr t).state ≠ .terminated) (timeout : BitVec 32) :
    SameRank s (parkNode c s t timeout) := by
  have h1 : SameRank s ((removeThreadFromReadyRunningList c s t).modT t
      fun x => { x with state := .blocked }) :=
    SameRank.remove.trans (.write rfl rfl rfl fun h => absurd (by rw [remove_thr] at h; exact h) hd)
  unfold parkNode
  split
  · exact h1
  · exact h1.trans (.wheelInsert (by simp) _)

theorem Inherits.parkObj (h : Inherits c k but) (hd : (k.thr t).state ≠ .terminated) (n : Nat)
    (timeout : BitVec 32) (ref : RefId) : Inherits c (syncWaitPark c k t (.obj n) timeout ref) but := by
  refine h.frame ?_ le_rfl (.park hd timeout)
  have h1 : WaitsKept k.toSync
      (k.toSync.modW t fun x => { x with waitList := some (.obj n), waitStatus := false })
      k.nMutex but := .modW (.inr rfl) (fun _ => id) fun _ => .inl
  refine (h1.trans (.refPush ref)).trans ⟨fun m w => ?_, fun _ _ _ => rfl, fun _ _ _ _ => id,
    fun _ _ => le_rfl, fun _ _ => id, fun _ _ => .inl⟩
  simp [syncWaitPark, Sync.waitTail]

/-- A thread whose boost is in place parks on a mutex. -/
theorem Inherits.park (h : Inherits c k none) (hd : (k.thr t).state ≠ .terminated)
    (timeout : BitVec 32) (ref : RefId) (hc : (k.mutex m).count = 0)
    (ha : (k.wait t).waitMutex = some m)
    (ho : ∀ o ∈ (k.mutex m).owner, (k.thr o).priority ≤ (k.thr t).priority) :
    Inherits c (syncWaitPark c k t (.mutex m) timeout ref) none := by
  -- everything but the new entry of the wait list is a step that keeps the waits
  set y := syncWaitRefPush (k.toSync.modW t
    fun x => { x with waitList := some (.mutex m), waitStatus := false }) t ref with hy
  have h1 : WaitsKept k.toSync y k.nMutex none :=
    .trans (.modW (.inr rfl) (fun _ => id) fun _ => .inl) (.refPush ref)
  have h2 : Inherits c { k with toSched := parkNode c k.toSched t timeout, toSync := y } none :=
    h.frame h1 le_rfl (.park hd timeout)
  have hmx : y.mutex = k.mutex := by
    rw [hy, syncWaitRefPush]
    split <;> rfl
  have hwt : (y.wait t).waitMutex = (k.wait t).waitMutex := by
    rw [hy, syncWaitRefPush]
    split <;> simp
  have hprio := (SameRank.park (c := c) hd timeout).prio
  have hmem : ∀ m' w, w ∈ (syncWaitPark c k t (.mutex m) timeout ref).waiters (.mutex m') →
      (m' = m ∧ w = t) ∨ w ∈ y.waiters (.mutex m') := by
    intro m' w hw
    simp only [syncWaitPark, Sync.waitTail, update_apply, WaitId.mutex.injEq] at hw
    split at hw
    · rename_i he
      rw [he]
      rcases mem_append.mp hw with hw | hw
      · exact .inr hw
      · exact .inl ⟨rfl, mem_singleton.mp hw⟩
    · exact .inr hw
  refine ⟨fun m' w hw => ?_, fun m' w hw => ?_, h2.named, { h2.ranked with edge := fun m' o w how hne hw => ?_ }⟩
  · rcases hmem m' w hw with ⟨rfl, rfl⟩ | hw
    · exact hwt.trans ha
    · exact h2.aimed m' w hw
  · rcases hmem m' w hw with ⟨rfl, rfl⟩ | hw
    · exact (congrArg Mutex.count (congrFun hmx m')).trans hc
    · exact h2.idle m' w hw
  · rcases hmem m' w hw with ⟨rfl, rfl⟩ | hw
    · have ho' : (k.mutex m').owner = some o := (congrArg Mutex.owner (congrFun hmx m')).symm.trans how
      have := ho o ho'
      exact ((hprio o).trans_le this).trans_eq (hprio w).symm
    · exact h2.ranked.edge m' o w how hne hw

end parts

/-! ## Lock and unlock -/

section sections

variable {c : Cfg} {y : Sync} {k : Kernel} {t u : Tid} {m : Mid}

theorem waitedMutex_eq_some : waitedMutex y t = some m ↔
    (y.wait t).waitMutex = some m ∧ (y.wait t).waitList = some (.mutex m) := by
  unfold waitedMutex
  cases hm : (y.wait t).waitMutex with
  | none => simp
  | some m' =>
    simp only [ite_none_right_eq_some, some.injEq]
    constructor
    · rintro ⟨hl, rfl⟩
      exact ⟨rfl, hl⟩
    · rintro ⟨rfl, hl⟩
      exact ⟨hl, rfl⟩

/-- A chain does not grow when waits end and mutexes lose their owner. -/
theorem ShortChains.sub (hs : ShortChains c k)
    (hw : ∀ u, (y.wait u).waitList = none ∨ (y.wait u).waitMutex = none ∨
      (y.wait u).waitMutex = (k.wait u).waitMutex ∧ (y.wait u).waitList = (k.wait u).waitList)
    (ho : ∀ m o, (y.mutex m).owner = some o → (k.mutex m).owner = some o) (ht : t < k.nThread) :
    chainEnds y c.piChainMax t = true := by
  refine chainEnds_mono (fun u m hm => ?_) ho _ t (hs t ht)
  obtain ⟨h1, h2⟩ := waitedMutex_eq_some.mp hm
  rcases hw u with hw | hw | ⟨h3, h4⟩
  · rw [hw] at h2
    cases h2
  · rw [hw] at h1
    cases h1
  · exact waitedMutex_eq_some.mpr ⟨h3 ▸ h1, h4 ▸ h2⟩

theorem Intact.no_waiter {X : Set Tid} (hi : Intact c X k) (hw : (k.wait t).waitList = none) (m : Mid) :
    t ∉ k.waiters (.mutex m) := by
  intro hm
  have := (hi.parked.mem_iff _ _).mp hm
  rw [hw] at this
  cases this

section
variable (h : Inherits c k none)
include h

namespace Inherits

theorem lockBegin (hm : m < k.nMutex) (timeout : BitVec 32) :
    Inherits c (lockBegin k t m timeout) none := by
  unfold Os.lockBegin
  simp only
  split
  · refine setCall ?_ fun m' hl => ?_
    · exact h.sync (.modM (fun _ _ _ => id) fun _ => le_rfl)
    · obtain rfl : m = m' := hl
      exact hm
  · exact h

variable {timeout : BitVec 32}

theorem lockFirst (hx : Exclusive c k) (hr : running k = some t)
    (hs : ShortChains c k) (hc : (k.wait t).call = .lockEnter m timeout) :
    Inherits c (lockFirst c k t m timeout) none := by
  obtain ⟨-, hw, ht⟩ := hx.of_running hr
  have hno := hx.intact.no_waiter hw
  have hm : m < k.nMutex := h.named t m (by rw [hc]; rfl)
  unfold Os.lockFirst
  simp only
  split
  · rename_i hpos
    -- a mutex with a unit in the count has no waiters, so the new owner owes nothing
    have hnil : k.waiters (.mutex m) = [] := by
      refine eq_nil_iff_forall_not_mem.mpr fun w hmem => ?_
      have := h.idle m w hmem
      omega
    refine leave (h.sync ?_) fun _ => id
    have h1 : WaitsKept k.toSync (k.toSync.modM m fun mx => { mx with count := mx.count - 1 })
        k.nMutex none :=
      .modM (fun _ _ _ => id)
        fun _ => sub_le _ _
    exact h1.trans (.own (.inl hnil))
  split
  · split
    · exact h.leave fun _ => id
    · refine leave ?_ fun _ => id
      exact h.sync (.modM (fun _ _ _ => id) fun _ => le_rfl)
  split
  · exact h.leave fun _ => id
  refine setCall ?_ fun m' hl => ?_
  · split
    · rename_i o ho
      -- the boost travels along the chain of the owner
      have h1 : Inherits c { k with
          toSync := k.toSync.modW t fun x => { x with waitMutex := some m } } none :=
        h.sync (.modW (.inl hno) (fun _ => id) fun _ => .inl)
      have hi : Intact c ∅ { k with
          toSync := k.toSync.modW t fun x => { x with waitMutex := some m } } :=
        hx.intact.of_sync rfl rfl (setWaitMutex_waitList _ _) rfl
      have hown := hx.owned.setWaitMutex (t := t) (some m)
      refine sync ?_ (.refPush _)
      refine propagate
        h1.mono hi (fun m' o' ho' => (hown.hold m' o').mpr ho') _ ?_ ?_
      · rintro u ⟨⟩
        refine hs.sub (fun v => ?_) (fun _ _ => id) (hx.owned.owner_lt ho)
        rw [modW_wait]
        split
        · rename_i hv
          exact .inl hw
        · exact .inr (.inr ⟨rfl, rfl⟩)
      · rintro u ⟨⟩ hnil
        have := (hown.hold m o).mpr ho
        rw [hnil] at this
        cases this
    · exact h.sync (.refPush _)
  · obtain rfl : m = m' := hl
    split <;> exact hm

theorem lockSemAcquire
    (hc : (k.wait t).call = .lockTake m timeout) : Inherits c (lockSemAcquire k t m timeout) none := by
  unfold Os.lockSemAcquire
  simp only
  split
  · refine setCall ?_ fun m' hl => ?_
    · exact h.sync (.modM (fun _ _ _ => id) fun _ => le_rfl)
    · obtain rfl : m = m' := hl
      exact h.named t m (by rw [hc]; rfl)
  · exact h.leave fun _ => id

theorem lockSemTake (hd : (k.thr t).state ≠ .terminated)
    (hc : (k.wait t).call = .lockWait m timeout)
    (hs : ParkSafe k t (k.wait t).call) : Inherits c (lockSemTake c k t m timeout) none := by
  rw [hc] at hs
  unfold Os.lockSemTake
  split
  · refine leave ?_ fun _ => id
    exact h.sync (.modM (fun _ _ _ => id) fun _ => sub_le _ _)
  rename_i h0
  split
  · exact h.leave fun _ => id
  rename_i ht
  have hzero : (k.mutex m).count = 0 := by omega
  obtain ⟨ha, ho⟩ := hs hzero ht
  refine (h.park hd timeout _ hzero ha ho).setCall fun m' hl => ?_
  obtain rfl : m = m' := hl
  exact h.named t m (by rw [hc]; rfl)

theorem waitDone : Inherits c (syncWaitDone k t).2 none :=
  h.sync ((WaitsKept.modW (.inr rfl) (fun _ => id) fun _ => .inl).trans .refPop)

theorem lockUnparked : Inherits c (lockUnparked k t m) none :=
  h.waitDone.leave fun _ => id

theorem lockSemRelease (ret : Err) : Inherits c (lockSemRelease k t m ret) none :=
  (h.sync (.refRelease _)).leave fun _ => id

theorem lockEnd : Inherits c (lockEnd k t m) none :=
  (h.sync (.refRelease _)).leave fun _ => id

theorem lockLast (hx : Exclusive c k) (hr : running k = some t)
    (hs : ShortChains c k) (ret : Err) : Inherits c (lockLast c k t m ret) none := by
  obtain ⟨-, hw, ht⟩ := hx.of_running hr
  have hno := hx.intact.no_waiter hw
  -- the sync half behind the last critical section, without the ownership
  let y := (syncWaitRefPop k.toSync t).modW t fun x => { x with waitMutex := none }
  have hy : ∀ but, WaitsKept k.toSync y k.nMutex but := fun but =>
    WaitsKept.refPop.trans (.modW (.inl hno) (fun _ => id) fun _ => .inl)
  have hyw : ∀ u, (y.wait u).waitList = (k.wait u).waitList := fun u =>
    (setWaitMutex_waitList _ _ u).trans (syncWaitRefPop_waitList _ u)
  have hyo : Owned y k.nThread k.nMutex := hx.owned.refPop.setWaitMutex none
  have hself : (y.wait t).waitMutex = none := by simp [y]
  have hself' : ((takeOwnership y m t).wait t).waitMutex = none := by
    simp [takeOwnership, Sync.hold, hself]
  unfold Os.lockLast
  simp only
  refine leave ?_ fun _ => id
  split
  · -- the new owner takes over the waiters that are left
    have h1 : Inherits c { k with toSync := takeOwnership y m t } (some t) :=
      h.mono.sync ((hy _).trans (.own (.inr rfl)))
    have hi : Intact c ∅ { k with toSync := takeOwnership y m t } :=
      hx.intact.of_sync rfl rfl (fun u => (takeOwnership_waitList y u).trans (hyw u)) rfl
    refine propagate h1 hi
      (fun m' o ho => ?_) _ ?_ ?_
    · by_cases hm : m' = m
      · subst hm
        simp only [takeOwnership, Sync.hold, modW_mutex, Sync.modM, update_self] at ho
        cases ho
        simp [takeOwnership, Sync.hold]
      simp only [takeOwnership, Sync.hold, modW_mutex, Sync.modM, update_of_ne hm] at ho
      have hmem := (hyo.hold m' o).mpr ho
      simp only [takeOwnership, Sync.hold, modW_wait, modM_wait]
      split
      · rename_i hot
        subst hot
        simp [hmem]
      · exact hmem
    · rintro u ⟨⟩
      refine chainEnds_of_idle c.chain_pos ?_
      unfold waitedMutex
      rw [hself']
    · rintro u ⟨⟩ -
      exact (h.ranked.base_lt t).le
  · split
    · have h1 : Inherits c { k with toSync := y } none := h.sync (hy _)
      have hi : Intact c ∅ { k with toSync := y } := hx.intact.of_sync rfl rfl hyw rfl
      refine propagate h1.mono hi
        (fun m' o ho => (hyo.hold m' o).mpr ho) _ (fun u hu => ?_) fun u hu hnil => ?_
      · refine hs.sub (fun v => ?_) (fun _ _ => id) (hyo.owner_lt hu)
        by_cases hv : v = t
        · subst hv
          exact .inr (.inl hself)
        · refine .inr (.inr ⟨?_, hyw v⟩)
          simp [y, modW_wait_ne _ hv, syncWaitRefPop]
      · have := (hyo.hold m u).mpr hu
        rw [hnil] at this
        cases this
    · exact h.sync (hy _)
  · exact h.sync (hy _)

theorem unlockFirst (hx : Exclusive c k) (hr : running k = some t)
    (hs : ShortChains c k) : Inherits c (unlockFirst c k t m) none := by
  obtain ⟨-, hw, ht⟩ := hx.of_running hr
  unfold Os.unlockFirst
  simp only
  split
  · exact h
  rename_i hown
  have hown : (k.mutex m).owner = some t := not_not.mp hown
  split
  · exact h.sync (.modM (fun _ _ _ => id) fun _ => le_rfl)
  refine leave ?_ fun _ => id
  have hnot : ∀ u, some u ≠ some t → m ∉ (k.wait u).holdList := by
    intro u hu hm
    rw [hx.owned.hold m u, hown] at hm
    exact hu hm.symm
  let y := ((k.toSync.unhold m).endLock m t).modM m fun mx => { mx with depth := 0, owner := none }
  have hy : WaitsKept k.toSync y k.nMutex (some t) :=
    ((WaitsKept.unhold hnot).trans (.modW (.inr rfl) (fun _ => id) fun _ => .inl)).trans
      (.modM (fun _ o _ ho => by cases ho)
        fun _ => le_rfl)
  have hyw : ∀ u, (y.wait u).waitList = (k.wait u).waitList := fun u => endLock_waitList _ u
  have hym : ∀ u, (y.wait u).waitMutex = (k.wait u).waitMutex := by
    intro u
    simp only [y, modM_wait, Sync.endLock, modW_wait, Sync.unhold]
    split <;> simp_all
  have hyo : ∀ m' o, (y.mutex m').owner = some o → m' ≠ m ∧ (k.mutex m').owner = some o := by
    intro m' o ho
    simp only [y, Sync.modM, update_apply] at ho
    split at ho
    · cases ho
    · rename_i hne
      exact ⟨hne, ho⟩
  have h1 : Inherits c { k with toSync := y } (some t) := h.mono.sync hy
  have hi : Intact c ∅ { k with toSync := y } := hx.intact.of_sync rfl rfl hyw rfl
  refine propagate h1 hi
    (fun m' o ho => ?_) _ ?_ ?_
  · obtain ⟨hne, ho⟩ := hyo m' o ho
    have hmem := (hx.owned.hold m' o).mpr ho
    simp only [y, modM_wait, Sync.endLock, modW_wait, Sync.unhold]
    split
    · rename_i hot
      subst hot
      exact (mem_erase_of_ne hne).mpr hmem
    · exact (mem_erase_of_ne hne).mpr hmem
  · rintro u ⟨⟩
    exact hs.sub (fun v => .inr (.inr ⟨hym v, hyw v⟩)) (fun m' o ho => (hyo m' o ho).2) ht
  · rintro u ⟨⟩ -
    exact (h.ranked.base_lt t).le

theorem unlockGive (hi : Intact c ∅ k) : Inherits c (unlockGive c k t m) none := by
  unfold Os.unlockGive
  simp only
  refine leave ?_ fun _ => id
  split
  · rename_i w _ hw
    have hb := hi.waiter (clear_empty k) (t := w) (by rw [hw]; simp)
    exact h.wake hi.parked.nodup hb.2 true
  rename_i hnil
  split
  · exact h
  · exact h.sync (.modM (fun _ _ _ => id) fun hne => absurd hnil hne)

end Inherits

end

end sections

end MiniTree.Os
