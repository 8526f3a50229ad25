import MiniTree.Os.Ownership

/-!
# Critical sections and the unit of a mutex

Every critical section of `mini_os_mutex_lock`, `mini_os_mutex_unlock`, the timeout
path, `mini_os_mutex_kill_held` and the deletion of a mutex moves the unit of at most
one mutex, in the order `Owned` asks for. Two sections need a condition:

* `KillSafe`: `mini_os_mutex_kill_held` puts the unit back into the count and wakes
  the waiters of a mutex that is not armed with success, so each of them has it as
  well. It is safe when the mutex is armed or nobody waits.
* `MutexDeleteSafe`: a deletion that comes while the unit is inside a call, or while
  the mutex is free and a lock is on its way to the count, is followed by a lock of
  a mutex that is destroyed under its owner.
-/

namespace MiniTree.Os

open MiniTree.Core Function List Nat Option

attribute [local simp] Sync.modM syncWaitRefPop takeOwnership syncWaitDone Sync.hold UnitAt

section sections

variable {c : Cfg} {y : Sync} {k : Kernel} {nT nM : Nat} {t u : Tid} {m : Mid}
  {f : SyncTcb → SyncTcb} {call : Call}

/-! ## Fields without a unit -/

theorem mutexKept_obj (mx : Mutex) {o : Obj} (hd : o.destroy = mx.obj.destroy)
    (hk : o.kill = mx.obj.kill) (ht : o.timeout = mx.obj.timeout) :
    MutexKept mx { mx with obj := o } where
  count := le_rfl
  max := le_rfl
  owner := .inl rfl
  dead h := by simpa [Dead, hd] using h
  reclaimed h := h
  armed h := .inl (hk ▸ h)
  timeout h := .inl (ht ▸ h)

theorem mutexKept_sem (mx : Mutex) (o : Obj) : MutexKept mx { mx with semObj := o } :=
  ⟨le_rfl, le_rfl, .inl rfl, id, id, .inl, .inl⟩

theorem mutexKept_depth (mx : Mutex) (d : Nat) : MutexKept mx { mx with depth := d } :=
  ⟨le_rfl, le_rfl, .inl rfl, id, id, .inl, .inl⟩

theorem mutexObjRelease_kept (mx : Mutex) : MutexKept mx (mutexObjRelease mx) := by
  have hd : MutexKept mx { mx with obj := objDrop mx.obj } := mutexKept_obj mx rfl rfl rfl
  unfold mutexObjRelease
  simp only
  split
  · rename_i hr
    have hdead : Dead mx := .inl hr.2
    unfold mutexFreeStorage
    split
    · exact { hd with dead := fun _ => hdead, reclaimed := fun _ => rfl }
    · exact ⟨zero_le _, zero_le _, .inr ⟨hdead, rfl⟩, fun _ => hdead, fun _ => rfl,
        fun h => absurd h Bool.false_ne_true, fun _ => .inr rfl⟩
  · exact hd

theorem Owned.refRelease (h : Owned y nT nM) (r : RefId) : Owned (refRelease y r) nT nM := by
  cases r with
  | mutex m => exact h.modM (mutexObjRelease_kept _)
  | mutexSem m =>
    exact h.modM (f := fun mx => { mx with semObj := objDrop mx.semObj }) (mutexKept_sem _ _)
  | obj n => exact h

/-- Fields of a thread that neither the unit nor the wait list shows in. -/
theorem Owned.modW_idle (h : Owned y nT nM)
    (hf : ∀ x, (f x).holdList = x.holdList ∧ (f x).locks = x.locks ∧ (f x).call = x.call ∧
      (f x).waitList = x.waitList ∧ (f x).waitStatus = x.waitStatus) : Owned (y.modW t f) nT nM := by
  obtain ⟨h1, h2, h3, h4, h5⟩ := hf (y.wait t)
  refine h.modW ⟨h1, h2, fun m => ?_, fun hp => ?_⟩ fun m => ?_
  · simp only [HasUnit, h3, h4, h5]
    exact id
  · simpa only [ParkedWell, h3, h4, h5] using hp
  · rw [h3]
    exact .inl

theorem Owned.refPush (h : Owned y nT nM) (r : RefId) : Owned (syncWaitRefPush y t r) nT nM := by
  unfold syncWaitRefPush
  split
  · exact h
  · exact h.modW_idle fun _ => ⟨rfl, rfl, rfl, rfl, rfl⟩

theorem syncWaitRefPush_call (y : Sync) (r : RefId) (u : Tid) :
    ((syncWaitRefPush y t r).wait u).call = (y.wait u).call := by
  unfold syncWaitRefPush
  split
  · rfl
  · rw [modW_wait]
    split <;> simp_all

section
variable (h : Owned y nT nM)
include h

theorem Owned.refPop : Owned (syncWaitRefPop y t) nT nM :=
  h.modW_idle fun _ => ⟨rfl, rfl, rfl, rfl, rfl⟩

theorem Owned.setWaitMutex (o : Option Mid) :
    Owned (y.modW t fun x => { x with waitMutex := o }) nT nM :=
  h.modW_idle fun _ => ⟨rfl, rfl, rfl, rfl, rfl⟩

theorem Owned.refDropAll : Owned (syncWaitRefDropAll y t) nT nM :=
  List.foldlRecOn (motive := (Owned · nT nM)) _ _ (h.modW_idle fun _ => ⟨rfl, rfl, rfl, rfl, rfl⟩)
    fun _ h r _ => h.refRelease r

/-- A running call moves on without a unit. -/
theorem Owned.setCall (hw : (y.wait t).waitList = none) {call : Call}
    (hu : ∀ m, HasUnit { y.wait t with call := call } m → HasUnit (y.wait t) m)
    (hd : ∀ m, Undecided m call → Undecided m (y.wait t).call ∨ ¬ Dead (y.mutex m)) :
    Owned (y.modW t fun x => { x with call := call }) nT nM :=
  h.modW ⟨rfl, rfl, hu, fun _ => parkedWell_none hw⟩ hd

end

namespace Owned

theorem wake (h : Owned k.toSync nT nM) (hs : ∀ m, (k.wait t).call ≠ .lockParked m) (b : Bool) :
    Owned (syncWakeThread c k t b).toSync nT nM := by
  have h0 : Owned (k.toSync.waitUnlink t) nT nM :=
    h.frame (fun m => .refl _) (fun t => .refl _) fun t m => .inl
  refine h0.modW (f := fun x => { x with waitList := none, waitStatus := b })
    ⟨rfl, rfl, fun m hm => ?_, fun _ => parkedWell_none rfl⟩ fun m => .inl
  unfold HasUnit at hm ⊢
  split at hm
  · rename_i m' hc
    exact absurd hc (hs m')
  all_goals simp_all

theorem park (h : Owned k.toSync nT nM) (w : WaitId) (timeout : BitVec 32) (ref : RefId) :
    Owned ((syncWaitPark c k t w timeout ref).setCall t (parkedCall w)).toSync nT nM := by
  set k' := (syncWaitPark c k t w timeout ref).setCall t (parkedCall w) with hk
  have hwait : ∀ u, u ≠ t → k'.wait u = k.wait u := by
    intro u hu
    simp only [hk, Kernel.setCall, modW_wait_ne _ hu, syncWaitPark, waitTail_wait, syncWaitRefPush]
    split <;> simp only [modW_wait_ne _ hu]
  have hmx : k'.mutex = k.mutex := by
    simp only [hk, Kernel.setCall, modW_mutex, syncWaitPark, waitTail_mutex, syncWaitRefPush]
    split <;> rfl
  have hself : ∃ refs, k'.wait t = { k.wait t with
      waitList := some w, waitStatus := false, waitRefs := refs, call := parkedCall w } := by
    simp only [hk, Kernel.setCall, modW_wait_self, syncWaitPark, waitTail_wait, syncWaitRefPush]
    split <;> exact ⟨_, by simp only [modW_wait_self]; rfl⟩
  obtain ⟨refs, hself⟩ := hself
  refine h.frame (fun m => by rw [hmx]; exact .refl _) (fun u => ?_) fun u m => ?_
  · by_cases hu : u = t
    · subst hu
      rw [hself]
      refine ⟨rfl, rfl, fun m hm => ?_, fun _ w' hw' => ?_⟩
      · cases w <;> simp [HasUnit, parkedCall] at hm
      · cases hw'
        exact ⟨rfl, rfl⟩
    · rw [hwait u hu]
      exact .refl _
  · by_cases hu : u = t
    · subst hu
      rw [hself]
      cases w <;> simp [Undecided, parkedCall]
    · rw [hwait u hu]
      exact .inl

/-- The unit moves between the count and the call of one thread. -/
theorem shiftCall (h : Owned y nT nM) (hlive : ¬ Dead (y.mutex m)) {n : Nat}
    (hg : GainsOnly m (y.wait t) { y.wait t with call := call })
    (htok : ∀ {Q : Place → Prop}, (∀ a, Q a →
      (a = .call t ∧ HasUnit { y.wait t with call := call } m) ∨ (UnitAt y m a ∧ a ≠ .call t)) →
        AtMostOne n Q) :
    Owned ((y.modM m fun mx => { mx with count := n }).modW t fun x => { x with call := call })
      nT nM := by
  have hwait : ∀ u, ((y.modM m fun mx => { mx with count := n }).modW t
      fun x => { x with call := call }).wait u =
        if u = t then { y.wait t with call := call } else y.wait u := by
    intro u
    rw [modW_wait, modM_wait]
  refine h.shift hlive (fun m' => ?_) (fun u => ?_) (fun u => ?_) (fun u => ?_) (htok ?_)
  · by_cases he : m' = m <;> simp [he]
  · rw [hwait]
    split <;> simp_all
  · rw [hwait]
    split <;> simp_all
  · rw [hwait]
    split
    · rename_i hu
      exact hu ▸ hg
    · exact .refl _
  · rintro (u | u) ha
    · simp only [UnitAt, hwait] at ha
      split at ha
      · rename_i hu
        exact .inl ⟨congrArg _ hu, ha⟩
      · rename_i hu
        exact .inr ⟨ha, by simpa using hu⟩
    · exact .inr ⟨by simpa using ha, by simp⟩

/-! ## Lock -/

section
variable (h : Owned k.toSync nT nM)
include h

theorem lockBegin (hw : (k.wait t).waitList = none) (hr : (k.mutex m).reclaimed = false)
    (timeout : BitVec 32) : Owned (lockBegin k t m timeout).toSync nT nM := by
  unfold Os.lockBegin
  simp only
  split
  · rename_i hok
    have hd : (k.mutex m).obj.destroy = false := by
      unfold objAcquire at hok
      split at hok
      · cases hok
      · rename_i hd
        simpa using hd
    have hacq : (objAcquire (k.mutex m).obj).2 =
        { (k.mutex m).obj with ref := ((k.mutex m).obj.ref + 1) % 256 } := by simp [objAcquire, hd]
    have h1 : Owned (k.toSync.modM m fun mx => { mx with obj := (objAcquire (k.mutex m).obj).2 })
        nT nM := h.modM (by rw [hacq]; exact mutexKept_obj _ rfl rfl rfl)
    refine h1.setCall hw (fun m' hm => absurd hm id) fun m' hm => .inr ?_
    obtain rfl : m = m' := hm
    simp [Dead, hacq, hd, hr]
  · exact h

variable {timeout : BitVec 32}

section
variable (hw : (k.wait t).waitList = none)
include hw

theorem lockFirst (ht : t < nT) (hc : (k.wait t).call = .lockEnter m timeout) :
    Owned (lockFirst c k t m timeout).toSync nT nM := by
  have hund : Undecided m (k.wait t).call := by
    rw [hc]
    rfl
  have hquiet : ∀ {y : Sync} {ret : Err}, Owned y nT nM → (y.wait t).waitList = none →
      Owned (y.modW t fun x => { x with call := .lockRelease m ret }) nT nM := fun h hw =>
    h.setCall hw (fun _ hm => absurd hm id) fun _ hm => absurd hm id
  unfold Os.lockFirst
  simp only
  split
  · rename_i hpos
    refine h.own (h.live_of_take hund hpos) ht (fun m' => ?_)
      (fun u hu => ?_) ?_ ?_ ?_ ?_ (.inl ⟨hpos, rfl⟩)
    · by_cases he : m' = m <;> simp [Kernel.setCall, he]
    · simp [Kernel.setCall, modW_wait_ne _ hu]
    all_goals simp [Kernel.setCall, hw]
  split
  · split
    · exact hquiet h hw
    · exact hquiet (h.modM (f := fun mx => { mx with depth := mx.depth + 1 })
        (mutexKept_depth _ _)) hw
  split
  · exact hquiet h hw
  have hlast : ∀ {y : Sync}, Owned y nT nM → (y.wait t).waitList = none →
      Undecided m (y.wait t).call → Owned ((syncWaitRefPush y t (.mutex m)).modW t
        fun x => { x with call := .lockTake m timeout }) nT nM := by
    intro y h hw hund
    refine (h.refPush (.mutex m)).setCall ?_ (fun _ hm => absurd hm id) fun m' hm => .inl ?_
    · rw [syncWaitRefPush_waitList]
      exact hw
    · obtain rfl : m = m' := hm
      rw [syncWaitRefPush_call]
      exact hund
  split
  · exact hlast (h.setWaitMutex (some m)) (by rw [modW_wait_self]; exact hw)
      (by rw [modW_wait_self]; exact hund)
  · exact hlast h hw hund

theorem lockSemAcquire (hc : (k.wait t).call = .lockTake m timeout) :
    Owned (lockSemAcquire k t m timeout).toSync nT nM := by
  unfold Os.lockSemAcquire
  simp only
  split
  · refine (h.modM (mutexKept_sem _ _)).setCall hw (fun _ hm => absurd hm id) fun m' hm => .inl ?_
    obtain rfl : m = m' := hm
    rw [modM_wait, hc]
    rfl
  · rename_i hne
    exact h.setCall hw (fun _ hm => absurd hm.2 hne) fun _ hm => absurd hm id

theorem lockSemTake (hc : (k.wait t).call = .lockWait m timeout) :
    Owned (lockSemTake c k t m timeout).toSync nT nM := by
  unfold Os.lockSemTake
  split
  · rename_i hpos
    have hund : Undecided m (k.wait t).call := by
      rw [hc]
      rfl
    exact h.shiftCall (h.live_of_take hund hpos) ⟨fun _ hne hm => absurd hm.1.symm hne,
      fun _ hm => absurd hm id, fun _ => parkedWell_none hw⟩ fun hQ =>
        (h.unit m).take hpos fun a ha => (hQ a ha).imp And.left And.left
  · split
    · exact h.setCall hw (fun _ hm => absurd hm.2 (by simp)) fun _ hm => absurd hm id
    · exact h.park (.mutex m) timeout (.mutexSem m)

theorem waitDone
    (hu : ∀ m, HasUnit { (syncWaitDone k t).2.wait t with call := call } m →
      HasUnit (k.wait t) m) (hd : ∀ m, ¬ Undecided m call) :
    Owned ((syncWaitDone k t).2.setCall t call).toSync nT nM := by
  have hwait : ∀ u, u ≠ t → ((syncWaitDone k t).2.setCall t call).wait u = k.wait u := by
    intro u hu
    simp [Kernel.setCall, modW_wait_ne _ hu]
  refine h.frame (fun m => .refl _) (fun u => ?_) fun u m => ?_
  · by_cases he : u = t
    · subst he
      refine ⟨?_, ?_, fun m hm => hu m ?_, fun _ => parkedWell_none ?_⟩
      · simp [Kernel.setCall]
      · simp [Kernel.setCall]
      · simpa [Kernel.setCall] using hm
      · simp [Kernel.setCall, hw]
    · rw [hwait u he]
      exact .refl _
  · by_cases he : u = t
    · subst he
      intro hm
      exact absurd (by simpa [Kernel.setCall] using hm) (hd m)
    · rw [hwait u he]
      exact .inl

theorem lockUnparked
    (hc : (k.wait t).call = .lockParked m) : Owned (lockUnparked k t m).toSync nT nM := by
  refine h.waitDone hw (fun m' hm => ?_) fun _ => id
  have hm' : m = m' ∧ (syncWaitDone k t).1 = .ok := hm
  simp only [HasUnit, hc]
  refine ⟨hm'.1, hw, ?_⟩
  have hok := hm'.2
  unfold syncWaitDone at hok
  split at hok
  · assumption
  · cases hok

theorem lockSemRelease {ret : Err}
    (hc : (k.wait t).call = .lockTaken m ret) : Owned (lockSemRelease k t m ret).toSync nT nM := by
  refine (h.refRelease (.mutexSem m)).setCall (by rw [refRelease_wait]; exact hw) (fun m' hm => ?_)
    fun _ hm => absurd hm id
  rw [refRelease_wait]
  simp only [HasUnit, hc]
  exact hm

theorem lockEnd : Owned (lockEnd k t m).toSync nT nM :=
  (h.refRelease (.mutex m)).setCall (by rw [refRelease_wait]; exact hw) (fun _ hm => absurd hm id)
    fun _ hm => absurd hm id

theorem lockLast (ht : t < nT) {ret : Err} (hc : (k.wait t).call = .lockExit m ret) :
    Owned (lockLast c k t m ret).toSync nT nM := by
  set y := (syncWaitRefPop k.toSync t).modW t fun x => { x with waitMutex := none } with hy
  have h1 : Owned y nT nM := h.refPop.setWaitMutex none
  have hself : y.wait t =
      { k.wait t with waitRefs := (k.wait t).waitRefs.tail, waitMutex := none } := by
    simp [hy]
  have hquiet : ∀ ret, Owned (y.modW t fun x => { x with call := .lockRelease m ret }) nT nM :=
    fun ret =>
    h1.setCall (by rw [hself]; exact hw) (fun _ hm => absurd hm id) fun _ hm => absurd hm id
  unfold Os.lockLast
  simp only
  split
  · have hun : HasUnit (k.wait t) m := by
      simp only [HasUnit, hc]
      exact ⟨trivial, trivial⟩
    refine h.own (h.live_of_unit (a := .call t) hun) ht
      (fun m' => ?_) (fun u hu => ?_) ?_ ?_ ?_ ?_ (.inr ⟨hun, rfl⟩)
    · by_cases he : m' = m <;> simp [Kernel.setCall, he]
    · simp [Kernel.setCall, modW_wait_ne _ hu]
    all_goals simp [Kernel.setCall, hw]
  · split
    · exact hquiet _
    · exact hquiet _
  · exact hquiet _

end

end

/-! ## Unlock -/

theorem unlockFirst (h : Owned k.toSync nT nM) (hw : (k.wait t).waitList = none) :
    Owned (unlockFirst c k t m).toSync nT nM := by
  unfold Os.unlockFirst
  simp only
  split
  · exact h
  rename_i ho
  rw [ne_eq, not_not] at ho
  split
  · exact h.modM (f := fun mx => { mx with depth := (mx.depth + 255) % 256 }) (mutexKept_depth _ _)
  have hself : ∀ u, (((((k.toSync.unhold m).endLock m t).modM m fun mx =>
      { mx with depth := 0, owner := none }).modW t fun x => { x with call := .unlockGive m }).wait u) =
      if u = t then { k.wait t with
        holdList := (k.wait t).holdList.erase m, locks := (k.wait t).locks.erase m,
        call := .unlockGive m }
      else { k.wait u with holdList := (k.wait u).holdList.erase m } := by
    intro u
    rw [modW_wait, modM_wait, Sync.endLock]
    split
    · simp [Sync.unhold]
    · rename_i hu
      rw [modW_wait_ne _ hu]
      rfl
  -- no other thread has `m` on its list
  have hother : ∀ u, u ≠ t → m ∉ (k.wait u).holdList := fun u hu hm => by
    have := (h.hold m u).mp hm
    rw [ho] at this
    exact hu (some.inj this).symm
  refine h.release (n := (k.mutex m).count) (h.live_of_unit (a := .owner t) ho)
    (fun m' => ?_) (fun u => ?_) (fun u => ?_) (fun u => ?_) ?_
  · by_cases he : m' = m <;> simp [Kernel.setCall, he]
  all_goals simp only [Kernel.setCall, hself]
  · split <;> simp_all
  · split
    · simp_all
    · rename_i hu
      exact (erase_of_not_mem (by rw [h.locks]; exact hother u hu)).symm
  · split
    · exact ⟨fun _ hne hm => absurd hm.symm hne, fun _ hm => absurd hm id,
        fun _ => parkedWell_none hw⟩
    · exact ⟨fun _ _ => id, fun _ => id, id⟩
  · refine (h.unit m).move (a := .owner t) (b := .call t) ho ?_
    rintro (u | u) ha
    · by_cases he : u = t
      · exact .inl (congrArg _ he)
      · refine .inr ⟨?_, by simp⟩
        simp only [UnitAt, hself, if_neg he] at ha
        exact ha
    · simp at ha

theorem unlockGive (h : Owned k.toSync nT nM) (hw : (k.wait t).waitList = none)
    (hp : ∀ w u, u ∈ k.waiters w → (k.wait u).waitList = some w)
    (hc : (k.wait t).call = .unlockGive m) : Owned (unlockGive c k t m).toSync nT nM := by
  have hun : HasUnit (k.wait t) m := by simp [HasUnit, hc]
  have hlive := h.live_of_unit (a := .call t) hun
  have hcount : (k.mutex m).count = 0 := (h.unit m).apart (.call t) hun
  unfold Os.unlockGive
  split
  · -- the first waiter is woken with the unit
    rename_i v _ hv
    have hvw := hp (.mutex m) v (by rw [hv]; simp)
    obtain ⟨hvc, -⟩ := h.parked v (.mutex m) hvw
    have hne : v ≠ t := by
      rintro rfl
      rw [hw] at hvw
      cases hvw
    have hself : ∀ u, (((syncWakeThread c k v true).setCall t .none).wait u) =
        if u = t then { k.wait t with call := .none }
        else if u = v then { k.wait v with waitList := none, waitStatus := true } else k.wait u := by
      intro u
      simp only [Kernel.setCall, syncWakeThread, modW_wait, waitUnlink_wait, if_neg hne.symm]
    refine h.shift (n := (k.mutex m).count) hlive (fun m' => ?_)
      (fun u => ?_) (fun u => ?_) (fun u => ?_) ?_
    · simp only [Kernel.setCall, syncWakeThread, modW_mutex, waitUnlink_mutex]
      split
      · rename_i he
        rw [he]
      · rfl
    · simp only [hself]
      split
      · simp_all
      · split <;> simp_all
    · simp only [hself]
      split
      · simp_all
      · split <;> simp_all
    · simp only [hself]
      split
      · exact ⟨fun _ _ hm => absurd hm id, fun _ hm => absurd hm id, fun _ => parkedWell_none hw⟩
      split
      · rename_i hu
        subst hu
        refine ⟨fun m' hne' hm => ?_, fun _ => id, fun _ => parkedWell_none rfl⟩
        simp only [HasUnit, hvc, parkedCall] at hm
        exact absurd hm.1.symm hne'
      · exact .refl _
    · refine (h.unit m).move (a := .call t) (b := .call v) hun ?_
      rintro (u | u) ha
      · simp only [UnitAt, hself] at ha
        split at ha
        · exact absurd ha id
        rename_i hut
        split at ha
        · rename_i huv
          exact .inl (congrArg _ huv)
        · exact .inr ⟨ha, by simpa using hut⟩
      · exact .inr ⟨ha, by simp⟩
  · -- nobody waits: the unit goes back to the count
    split
    · exact h.setCall hw (fun _ hm => absurd hm id) fun _ hm => absurd hm id
    · exact h.shiftCall hlive ⟨fun _ _ hm => absurd hm id, fun _ hm => absurd hm id,
        fun _ => parkedWell_none hw⟩ fun hQ => (h.unit m).put (a := .call t) hun (by omega)
          fun a ha => (hQ a ha).resolve_left fun hc => hc.2

end Owned

/-! ## Waits that end -/

def SameNames (k k' : Kernel) : Prop := k'.nThread = k.nThread ∧ k'.nMutex = k.nMutex

/-- The wait of a thread may have ended, with success only if `b`. -/
structure Ends (b : Bool) (x x' : SyncTcb) : Prop where
  hold : x'.holdList = x.holdList
  locks : x'.locks = x.locks
  call : x'.call = x.call
  refs : x'.waitRefs = x.waitRefs
  list : x'.waitList = none ∨ x'.waitList = x.waitList ∧ x'.waitStatus = x.waitStatus
  status : b = false → x'.waitStatus = true → x.waitStatus = true

/-- Only waits have ended, and the scheduler may have changed. -/
structure Unparks (b : Bool) (k k' : Kernel) : Prop where
  names : SameNames k k'
  mutex : k'.mutex = k.mutex
  wait : ∀ u, Ends b (k.wait u) (k'.wait u)
  empty : ∀ w, k.waiters w = [] → k'.waiters w = []

section
variable {b : Bool} {k' : Kernel}

theorem Ends.refl (x : SyncTcb) : Ends b x x := ⟨rfl, rfl, rfl, rfl, .inr ⟨rfl, rfl⟩, fun _ => id⟩

theorem Ends.trans {x x' x'' : SyncTcb} (h : Ends b x x') (h' : Ends b x' x'') : Ends b x x'' where
  hold := h'.hold.trans h.hold
  locks := h'.locks.trans h.locks
  call := h'.call.trans h.call
  refs := h'.refs.trans h.refs
  list := h'.list.elim .inl fun hl =>
    h.list.imp hl.1.trans fun hl' => ⟨hl.1.trans hl'.1, hl.2.trans hl'.2⟩
  status hok hs := h.status hok (h'.status hok hs)

theorem Ends.threadKept {x x' : SyncTcb} (h : Ends false x x') (hp : ParkedWell x) :
    ThreadKept x x' where
  hold := h.hold
  locks := h.locks
  unit m hm := by
    unfold HasUnit at hm ⊢
    rw [h.call] at hm
    split at hm
    · -- who waits has not been told of a success
      have hs := h.status rfl hm.2.2
      cases hw : x.waitList with
      | none => simp_all
      | some w => simp [(hp w hw).2] at hs
    all_goals simp_all
  parked _ w hw := by
    rcases h.list with hl | ⟨hl, hs⟩
    · simp [hl] at hw
    · rw [h.call, hs]
      exact hp w (hl ▸ hw)

namespace Unparks

theorem refl (k : Kernel) : Unparks b k k := ⟨⟨rfl, rfl⟩, rfl, fun _ => .refl _, fun _ => id⟩

theorem trans {k'' : Kernel} (h : Unparks b k k') (h' : Unparks b k' k'') : Unparks b k k'' where
  names := ⟨h'.names.1.trans h.names.1, h'.names.2.trans h.names.2⟩
  mutex := h'.mutex.trans h.mutex
  wait u := (h.wait u).trans (h'.wait u)
  empty w hw := h'.empty w (h.empty w hw)

theorem one (hn : SameNames k k') (hs : k'.toSync = (k.toSync.waitUnlink t).modW t f)
    (hf : ∀ x, Ends b x (f x)) : Unparks b k k' where
  names := hn
  mutex := by rw [hs, modW_mutex, waitUnlink_mutex]
  wait u := by
    rw [hs, modW_wait, waitUnlink_wait]
    split
    · rename_i hu
      exact hu ▸ hf _
    · exact .refl _
  empty w hw := by simp [hs, hw]

theorem wake (b : Bool) : Unparks b k (syncWakeThread c k t b) :=
  one (f := fun x => { x with waitList := none, waitStatus := b }) ⟨rfl, rfl⟩ rfl fun _ =>
    ⟨rfl, rfl, rfl, rfl, .inl rfl, fun h h' => absurd h' (by simp [h])⟩

theorem killFold (l : List Tid) (b : Bool) (k : Kernel) :
    Unparks b k (l.foldl (killWaiter c b) k) :=
  l.foldlRecOn _ (refl k) fun _ h w _ => h.trans (one ⟨rfl, rfl⟩ (killWaiter_toSync b) fun _ =>
    ⟨rfl, rfl, rfl, rfl, .inl rfl, fun h h' => absurd h' (by simp [h])⟩)

theorem killWaiters : Unparks (!(k.mutex m).obj.timeout) k (mutexKillWaiters c k m) := killFold _ _ k

theorem cancelWait (hf : ∀ x, Ends b x (f { x with waitList := none, waitMutex := none })) :
    Unparks b k (cancelWait c k t f) := by
  unfold Os.cancelWait
  split
  · exact .refl k
  · exact one ⟨rfl, rfl⟩ rfl hf

theorem threadUnlink : Unparks b k (threadUnlink c k t) := by
  have hc : Unparks b k (Os.cancelWait c k t id) :=
    cancelWait fun _ => ⟨rfl, rfl, rfl, rfl, .inl rfl, fun _ => id⟩
  unfold Os.threadUnlink threadUnlinkBlocked
  split
  · exact { refl k with }
  · exact { refl k with }
  · dsimp only
    split <;> exact { hc with }
  · exact .refl k

theorem suspend : Unparks b k (threadSuspend c k t).2 := by
  unfold threadSuspend
  split
  iterate 3 exact { refl k with }
  · exact { cancelWait
      fun _ =>
        ⟨rfl, rfl, rfl, rfl, .inl rfl, fun _ h => by cases h⟩ with }
  · exact .refl k

theorem tick : Unparks false k (systickHandler c k) := by
  have hfold : Unparks false k (tickDecrement c k) := by
    refine List.foldlRecOn _ (tickExpire c) { refl k with } fun k' h t _ => h.trans ?_
    unfold tickExpire expire
    dsimp only
    split
    · exact { refl k' with }
    · split
      · exact { wake false with }
      · exact { refl k' with }
  exact { hfold with }

end Unparks

theorem Owned.unparks (h : Owned k.toSync nT nM) (hu : Unparks false k k') : Owned k'.toSync nT nM := by
  refine h.frame (fun m => ?_) (fun u => (hu.wait u).threadKept (h.parked u)) fun u m => ?_
  · rw [hu.mutex]
    exact .refl _
  · rw [(hu.wait u).call]
    exact .inl

end

/-! ## Force-release -/

/-- The waiters of `m`, if any, are told that their wait failed. -/
def KillQuiet (k : Kernel) (m : Mid) : Prop :=
  (k.mutex m).obj.timeout = true ∨ k.waiters (.mutex m) = []
  deriving Decidable

theorem KillQuiet.unparks (hq : KillQuiet k m) : Unparks false k (mutexKillWaiters c k m) := by
  have h := Unparks.killWaiters (c := c) (k := k) (m := m)
  rcases hq with ht | hnil
  · rwa [ht] at h
  · rw [mutexKillWaiters_eq, hnil]
    exact .refl k

/-- The owner's mutex is force-released: the unit goes to the count, or is lost. -/
theorem Owned.forceRelease (h : Owned y nT nM) (ho : (y.mutex m).owner = some t) {n : Nat} (hn : n ≤ 1) :
    Owned (((y.unhold m).endLocks m).modM m fun mx =>
      { mx with owner := none, depth := 0, count := n }) nT nM := by
  refine h.release (n := n) (h.live_of_unit (a := .owner t) ho) (fun m' => ?_)
    (fun u => rfl) (fun u => rfl) (fun u => ⟨fun _ _ => id, fun _ => id, id⟩) ?_
  · by_cases he : m' = m <;> simp [he]
  · refine (h.unit m).put (a := .owner t) ho hn ?_
    rintro (u | u) ha
    · exact ⟨ha, by simp⟩
    · simp at ha

/-- A mutex nobody owns is linked on no `hold_list`. -/
theorem Owned.clearFree (h : Owned y nT nM) (ho : (y.mutex m).owner = none) :
    Owned (((y.unhold m).endLocks m).modM m fun mx => { mx with owner := none, depth := 0 }) nT nM := by
  have hnot : ∀ u, m ∉ (y.wait u).holdList := fun u hm => by
    have := (h.hold m u).mp hm
    rw [ho] at this
    cases this
  have h1 : Owned ((y.unhold m).endLocks m) nT nM := by
    refine h.frame (fun _ => .refl _) (fun u => ⟨?_, ?_, fun _ => id, id⟩) fun _ _ => .inl
    · exact erase_of_not_mem (hnot u)
    · exact erase_of_not_mem (h.locks u ▸ hnot u)
  exact h1.modM ⟨le_rfl, le_rfl, .inl ho.symm, id, id, .inl, .inl⟩

theorem Owned.killOne (h : Owned k.toSync nT nM) (hq : KillQuiet k m)
    (ho : (k.mutex m).owner = some t) : Owned (mutexKillOne c k m).toSync nT nM := by
  have hm : (mutexKillWaiters c k m).mutex = k.mutex := Unparks.killWaiters.mutex
  have h1 := (h.unparks (hq.unparks)).forceRelease
    (by rw [hm]; exact ho) (h.max m)
  rw [← hm] at h1
  exact h1

theorem killOne_owner {m' : Mid} (he : m' ≠ m) : (mutexKillOne c k m).mutex m' = k.mutex m' := by
  simp only [mutexKillOne, Sync.modM, update_of_ne he, endLocks_mutex, unhold_mutex]
  exact congrFun Unparks.killWaiters.mutex m'

theorem killOne_waiters {m' : Mid} (h : k.waiters (.mutex m') = []) :
    (mutexKillOne c k m).waiters (.mutex m') = [] :=
  Unparks.killWaiters.empty _ h

theorem killOne_holdList (u : Tid) :
    ((mutexKillOne c k m).wait u).holdList = (k.wait u).holdList.erase m := by
  have := (Unparks.killWaiters (c := c) (k := k) (m := m)).wait u
  simp only [mutexKillOne, modM_wait, Sync.endLocks, Sync.unhold, this.hold]

/-- `mini_os_mutex_kill_held` over a list of mutexes `t` holds. -/
theorem Owned.killHeldFold (l : List Mid) (hn : l.Nodup) (h : Owned k.toSync nT nM)
    (hl : ∀ m ∈ l, (k.mutex m).owner = some t ∧ KillQuiet k m) :
    Owned (l.foldl (mutexKillOne c) k).toSync nT nM ∧
      ∀ u, ((l.foldl (mutexKillOne c) k).wait u).holdList = (k.wait u).holdList.diff l := by
  induction l generalizing k with
  | nil => exact ⟨h, fun u => (diff_nil _).symm⟩
  | cons m l ih =>
    obtain ⟨hm, hn'⟩ := nodup_cons.mp hn
    have hrest : ∀ m' ∈ l, ((mutexKillOne c k m).mutex m').owner = some t ∧
        KillQuiet (mutexKillOne c k m) m' := by
      intro m' hm'
      have hne : m' ≠ m := ne_of_mem_of_not_mem hm' hm
      obtain ⟨ho, hq⟩ := hl m' (by simp [hm'])
      rw [killOne_owner hne]
      refine ⟨ho, hq.imp (fun ht => ?_) killOne_waiters⟩
      rw [killOne_owner hne]
      exact ht
    have h1 := h.killOne (c := c) (hl m (by simp)).2 (hl m (by simp)).1
    obtain ⟨h2, h3⟩ := ih hn' h1 hrest
    refine ⟨h2, fun u => (h3 u).trans ?_⟩
    rw [killOne_holdList, diff_cons]

/-- Every mutex `t` holds can be force-released. -/
def KillSafe (k : Kernel) (t : Tid) : Prop := ∀ m ∈ (k.wait t).holdList, KillQuiet k m
  deriving Decidable

theorem Owned.killHeld (h : Owned k.toSync nT nM) (hs : KillSafe k t) :
    Owned (mutexKillHeld c k t).toSync nT nM ∧ ((mutexKillHeld c k t).wait t).holdList = [] := by
  obtain ⟨h1, h2⟩ := h.killHeldFold (k.wait t).holdList (h.nodup t)
    fun m hm => ⟨(h.hold m t).mp hm, hs m hm⟩
  refine ⟨h1, (h2 t).trans ?_⟩
  rw [(h.nodup t).sdiff_eq_filter]
  simp

/-! ## Deletion and creation of a mutex -/

/-- A deletion that is not refused comes when no call has the unit and no lock can still
take it out of the count. -/
def MutexDeleteSafe (k : Kernel) (m : Mid) (isStatic : Bool) : Prop :=
  mutexDeleteCheck k m isStatic = .ok →
    (∀ t, ¬ HasUnit (k.wait t) m) ∧ ((k.mutex m).count = 0 ∨ ∀ t, ¬ Undecided m (k.wait t).call)

theorem requestDestroy_kept (mx : Mutex) (ha : mx.obj.kill = true → mx.obj.timeout = true)
    (ho : mx.owner = none) : (mutexRequestDestroy mx).count ≤ mx.count ∧
      (mutexRequestDestroy mx).maxCount ≤ mx.maxCount ∧ (mutexRequestDestroy mx).owner = none ∧
      ((mutexRequestDestroy mx).obj.kill = true → (mutexRequestDestroy mx).obj.timeout = true) ∧
      (mx.reclaimed = true → (mutexRequestDestroy mx).reclaimed = true) := by
  unfold mutexRequestDestroy mutexFreeStorage
  simp only
  split
  · exact ⟨le_rfl, le_rfl, ho, ha, id⟩
  · split
    · exact ⟨le_rfl, le_rfl, ho, ha, fun _ => rfl⟩
    · exact ⟨zero_le _, zero_le _, rfl, fun h => absurd h Bool.false_ne_true, fun _ => rfl⟩

theorem Owned.requestDestroy (h : Owned y nT nM) (hno : ∀ a, ¬ UnitAt y m a)
    (hc : (y.mutex m).count = 0 ∨ ∀ t, ¬ Undecided m (y.wait t).call) :
    Owned (y.modM m mutexRequestDestroy) nT nM := by
  have ho := owner_eq_none hno
  obtain ⟨h1, h2, h3, h4, h5⟩ := requestDestroy_kept _ (h.armed m) ho
  exact h.destroy hno hc h1 (h2.trans (h.max m)) h3 h4 h5

theorem Owned.deleteCommon (h : Owned k.toSync nT nM) {isStatic : Bool}
    (hs : MutexDeleteSafe k m isStatic) : Owned (mutexDeleteCommon c k m isStatic).2.toSync nT nM := by
  unfold Os.mutexDeleteCommon
  split
  · rename_i hok
    obtain ⟨hun, hc⟩ := hs hok
    split
    · rename_i hbusy
      -- held or waited for: the deletion passed its check because the mutex is armed
      have hk : (k.mutex m).obj.kill = true := by
        unfold mutexDeleteCheck at hok
        simp only at hok
        split_ifs at hok with h1 h2 h3 h4
        by_contra hk
        exact h4 ⟨hbusy, by simpa using hk⟩
      have hq : KillQuiet k m := .inl (h.armed m hk)
      have hu := hq.unparks (c := c)
      have h1 := h.unparks hu
      have hmx := hu.mutex
      have hcount : (k.mutex m).owner ≠ none → (k.mutex m).count = 0 := by
        intro ho
        obtain ⟨o, ho⟩ := ne_none_iff_exists'.mp ho
        exact (h.unit m).apart (.owner o) ho
      have h2 : Owned ((((mutexKillWaiters c k m).toSync.unhold m).endLocks m).modM m fun mx =>
          { mx with owner := none, depth := 0 }) nT nM := by
        cases ho : (k.mutex m).owner with
        | some o =>
          have := h1.forceRelease
            (by rw [hmx]; exact ho) (h.unit m).pool
          rw [← hmx] at this
          exact this
        | none => exact h1.clearFree (by rw [hmx]; exact ho)
      refine h2.requestDestroy ?_ ?_
      · rintro (u | u) ha
        · exact hun u (((hu.wait u).threadKept (h.parked u)).unit m ha)
        · simp at ha
      · refine hc.imp (fun h0 => ?_) fun hno u hun' => hno u ?_
        · simp [hmx, h0]
        · rw [← (hu.wait u).call]
          exact hun'
    · rename_i hidle
      refine h.requestDestroy ?_ hc
      rintro (u | u) ha
      · exact hun u ha
      · exact hidle (.inr (by rw [show (k.mutex m).owner = some u from ha]; simp))
  · exact h

theorem Owned.enableKill (h : Owned k.toSync nT nM) : Owned (mutexEnableKill k m).toSync nT nM :=
  h.modM (f := fun mx => { mx with obj := { mx.obj with kill := true, timeout := true } })
    ⟨le_rfl, le_rfl, .inl rfl, id, id, fun _ => .inr rfl, fun _ => .inl rfl⟩

theorem Owned.createMutex (h : Owned y nT nM) (isRecursive heapOwned : Bool) :
    Owned (y.modM nM fun _ => mutexInit isRecursive heapOwned) nT (nM + 1) := by
  have hdead := h.dead nM (.inr (h.freshM nM le_rfl))
  have h1 : Owned y nT (nM + 1) :=
    { h with freshM := fun m hle => h.freshM m (by omega) }
  have hmx : ∀ m, (y.modM nM fun _ => mutexInit isRecursive heapOwned).mutex m =
      if m = nM then mutexInit isRecursive heapOwned else y.mutex m := by simp [update_apply]
  refine h1.at hmx ?_ (lt_succ_self _) le_rfl (absurd · Bool.false_ne_true) (by simp [mutexInit])
    (fun t => ⟨.refl _, fun _ _ => Iff.rfl, ?_, h.nodup t, h.locks t⟩) (.empty le_rfl ?_)
  · simp [Dead, mutexInit, objInit]
  · exact iff_of_false (fun hm => hdead.1 (.owner t) ((h.hold nM t).mp hm)) (by simp [mutexInit])
  · rintro (t | t) ha
    · exact hdead.1 (.call t) ha
    · simp [mutexInit] at ha

/-! ## Threads -/

/-- A thread's sync half is set up or cleared, its `hold_list` being empty. -/
theorem Owned.reset (h : Owned y nT nM) (hh : (y.wait t).holdList = []) :
    Owned (y.modW t fun _ => .init) nT nM :=
  h.modW ⟨hh.symm, ((h.locks t).trans hh).symm, fun _ hm => absurd hm id,
    fun _ => parkedWell_none rfl⟩ fun _ hm => absurd hm id

theorem Owned.spawn (h : Owned y nT nM) : Owned (y.modW nT fun _ => .init) (nT + 1) nM := by
  have h1 := h.reset (h.freshT nT le_rfl)
  exact { h1 with freshT := fun t hle => h1.freshT t (by omega) }

/-- A dropped reference frees dead storage only. -/
theorem refRelease_live (r : RefId) (h : ¬ Dead (y.mutex m)) : ¬ Dead ((refRelease y r).mutex m) ∧
    ((refRelease y r).mutex m).obj.timeout = (y.mutex m).obj.timeout := by
  cases r with
  | mutex m' =>
    by_cases he : m = m'
    · subst he
      have hd : (y.mutex m).obj.destroy = false := by simpa using fun hd => h (.inl hd)
      have hrel : mutexObjRelease (y.mutex m) = { y.mutex m with obj := objDrop (y.mutex m).obj } := by
        simp [mutexObjRelease, objDrop, hd]
      simp only [refRelease, Sync.modM, update_self, hrel]
      exact ⟨h, rfl⟩
    · simp only [refRelease, Sync.modM, update_of_ne he]
      exact ⟨h, trivial⟩
  | mutexSem m' =>
    by_cases he : m = m'
    · subst he
      simp only [refRelease, Sync.modM, update_self]
      exact ⟨h, trivial⟩
    · simp only [refRelease, Sync.modM, update_of_ne he]
      exact ⟨h, trivial⟩
  | obj n => exact ⟨h, rfl⟩

theorem refDropAll_live (h : ¬ Dead (y.mutex m)) :
    ((syncWaitRefDropAll y t).mutex m).obj.timeout = (y.mutex m).obj.timeout :=
  (List.foldlRecOn (b := y.modW t _) (motive := fun y' => ¬ Dead (y'.mutex m) ∧
    (y'.mutex m).obj.timeout = (y.mutex m).obj.timeout) _ _ ⟨h, rfl⟩ fun _ h r _ =>
      (refRelease_live r h.1).imp_right (·.trans h.2)).2

theorem Owned.delete (h : Owned k.toSync nT nM) (hs : KillSafe k t) :
    Owned (threadDelete c k t).toSync nT nM := by
  have hu : Unparks false k (threadUnlink c k t) := .threadUnlink
  have hm := hu.mutex
  have h1 := h.unparks hu
  have h2 : Owned (syncWaitRefDropAll (Os.threadUnlink c k t).toSync t) nT nM := h1.refDropAll
  have hold2 : ((syncWaitRefDropAll (Os.threadUnlink c k t).toSync t).wait t).holdList =
      (k.wait t).holdList := by
    rw [syncWaitRefDropAll_wait, if_pos rfl]
    exact (hu.wait t).hold
  -- the mutexes the target holds are live, so the dropped references do not touch them
  have hs2 : KillSafe { Os.threadUnlink c k t with
      toSync := syncWaitRefDropAll (Os.threadUnlink c k t).toSync t } t := by
    intro m hmem
    have hmem' : m ∈ (k.wait t).holdList := hold2 ▸ hmem
    have hlive : ¬ Dead ((Os.threadUnlink c k t).mutex m) := by
      rw [hm]
      exact h.live_of_unit (a := .owner t) ((h.hold m t).mp hmem')
    refine (hs m hmem').imp (fun ht => ?_) fun hnil => ?_
    · refine (refDropAll_live hlive).trans ?_
      rw [hm]
      exact ht
    · exact (congrFun (syncWaitRefDropAll_waiters _) _).trans (hu.empty _ hnil)
  obtain ⟨h3, h4⟩ := Owned.killHeld h2 hs2
  exact h3.reset h4

/-- A deletion parks nobody. -/
theorem threadDelete_waitList (hu : (k.wait u).waitList = none) :
    ((threadDelete c k t).wait u).waitList = none := by
  have hends : ∀ {b x x'}, Ends b x x' → x.waitList = none → x'.waitList = none := fun h hx =>
    h.list.elim id fun hl => hl.1.trans hx
  have hheld : ∀ (l : List Mid) (k : Kernel), (k.wait u).waitList = none →
      ((l.foldl (mutexKillOne c) k).wait u).waitList = none := fun l k hk => by
    refine l.foldlRecOn (motive := fun k : Kernel => (k.wait u).waitList = none) _ hk ?_
    intro k h m _
    have hk := hends ((Unparks.killWaiters (c := c) (m := m)).wait u) h
    exact hk
  have h1 := hends ((Unparks.threadUnlink (b := true) (c := c) (t := t)).wait u) hu
  have h2 : ((syncWaitRefDropAll (Os.threadUnlink c k t).toSync t).wait u).waitList = none := by
    rw [syncWaitRefDropAll_wait]
    split <;> simp_all
  have h3 := hheld ((syncWaitRefDropAll (Os.threadUnlink c k t).toSync t).wait t).holdList
    { Os.threadUnlink c k t with toSync := syncWaitRefDropAll (Os.threadUnlink c k t).toSync t } h2
  unfold threadDelete
  rw [modW_wait]
  split
  · rfl
  · exact h3

end sections

end MiniTree.Os
