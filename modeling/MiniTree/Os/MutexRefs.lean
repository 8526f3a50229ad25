import Mathlib.Data.Finset.Card
import MiniTree.Os.ExclusionRun

/-!
# References to a mutex

`mini_os_mutex_lock` holds a reference on the mutex from its first to its last critical section, and
while it may be parked it also records it in `wait_refs`, for `mini_os_thread_delete` to drop.
`mini_os_mutex_unlock` holds none. `Referenced` says that `obj_ref` covers the locks in flight, and the
creator until destroy is requested; together with the ownership of the unit (`Owned`) this says who can
still reach a descriptor.

**Results.** `descriptorsLive_of_reachable`: if no mutex is deleted while a call has its unit or can
still take it, none twice, and `obj_ref` does not wrap, then no step of any call, no `hold_list` and no
wait list leads to a descriptor that was given back. `descriptorsLive_fails_in_unlock` deletes a mutex
between the two critical sections of an unlock.
-/

namespace MiniTree.Os

open MiniTree.Core Function Finset List
open Sync (modM)

/-- The call is a lock of `m` and has its reference. -/
def InLock (m : Mid) : Call → Prop
  | .lockEnter m' _ | .lockTake m' _ | .lockWait m' _ | .lockParked m' | .lockTaken m' _
  | .lockExit m' _ | .lockRelease m' _ => m' = m
  | _ => False

instance (m : Mid) : (call : Call) → Decidable (InLock m call)
  | .lockEnter _ _ | .lockTake _ _ | .lockWait _ _ | .lockParked _ | .lockTaken _ _
  | .lockExit _ _ | .lockRelease _ _ => inferInstanceAs (Decidable (_ = _))
  | .none | .unlockGive _ | .objParked _ | .resume _ | .delete _ | .recompute _ =>
    inferInstanceAs (Decidable False)

/-- `wait_refs` at each point of a call. -/
def refsOf : Call → List RefId
  | .lockTake m _ | .lockWait m _ | .lockTaken m _ | .lockExit m _ => [.mutex m]
  | .lockParked m => [.mutexSem m, .mutex m]
  | .objParked n => [.obj n]
  | _ => []

def lockCount (m : Mid) (call : Call) : Nat := if InLock m call then 1 else 0

/-- The count covers `n` locks in flight; a mutex that was given back has none. -/
structure RefOk (mx : Mutex) (n : Nat) : Prop where
  gone : mx.reclaimed = true → n = 0
  live : mx.reclaimed = false → n + (!mx.obj.destroy).toNat ≤ mx.obj.ref

structure Referenced (y : Sync) : Prop where
  refs : ∀ t, (y.wait t).waitRefs = refsOf (y.wait t).call
  users : ∀ m, ∃ users : Finset Tid, (∀ t, t ∈ users ↔ InLock m (y.wait t).call) ∧
    RefOk (y.mutex m) users.card

theorem referenced_boot (c : Cfg) : Referenced (boot c).toSync where
  refs _ := rfl
  users _ := ⟨∅, fun _ => iff_of_false (notMem_empty _) id, fun _ => rfl, fun h => by cases h⟩

/-! ## The count -/

section count

variable {mx mx' : Mutex} {n : Nat}

/-- Fields the count is not in. -/
def RefKept (mx mx' : Mutex) : Prop :=
  mx'.reclaimed = mx.reclaimed ∧ mx'.obj.destroy = mx.obj.destroy ∧ mx'.obj.ref = mx.obj.ref

theorem RefKept.refOk (h : RefKept mx mx') (hn : RefOk mx n) : RefOk mx' n :=
  ⟨fun hr => hn.gone (h.1 ▸ hr), fun hr => by rw [h.2.1, h.2.2]; exact hn.live (h.1 ▸ hr)⟩

theorem RefOk.mono {i : Nat} (h : RefOk mx (n + i)) : RefOk mx n :=
  ⟨fun hr => Nat.eq_zero_of_add_eq_zero_right (h.gone hr), fun hr => by have := h.live hr; omega⟩

theorem RefOk.live_of_succ (h : RefOk mx (n + 1)) : mx.reclaimed = false :=
  eq_false_of_ne_true fun hr => absurd (h.gone hr) (Nat.succ_ne_zero n)

theorem freeStorage_reclaimed (mx : Mutex) : (mutexFreeStorage mx).reclaimed = true := by
  unfold mutexFreeStorage
  split <;> rfl

/-- Storage that nobody refers to is given back. -/
theorem refOk_freeStorage (hn : n = 0) : RefOk (mutexFreeStorage mx) n :=
  ⟨fun _ => hn, fun hr => absurd ((freeStorage_reclaimed mx).symm.trans hr) Bool.true_eq_false_eq_False⟩

/-- A count below 255 does not wrap. -/
theorem RefOk.acquire (h : RefOk mx n) (hr : mx.reclaimed = false) (hd : mx.obj.destroy = false)
    (hlt : mx.obj.ref < 255) : RefOk { mx with obj := (objAcquire mx.obj).2 } (n + 1) := by
  have hlive := h.live hr
  refine ⟨fun hr' => absurd (hr.symm.trans hr') Bool.false_ne_true, fun _ => ?_⟩
  simp only [objAcquire, hd, Bool.false_eq_true, if_false, Bool.not_false, Bool.toNat_true] at hlive ⊢
  omega

theorem RefOk.release (h : RefOk mx (n + 1)) : RefOk (mutexObjRelease mx) n := by
  have hr := h.live_of_succ
  have hlive := h.live hr
  unfold mutexObjRelease
  dsimp only
  split
  · rename_i hz
    have hz1 : mx.obj.ref - 1 = 0 := hz.1
    exact refOk_freeStorage (by omega)
  · refine ⟨fun hr' => absurd (hr.symm.trans hr') Bool.false_ne_true, fun _ => ?_⟩
    dsimp only [objDrop]
    omega

theorem RefOk.requestDestroy (h : RefOk mx n) (hr : mx.reclaimed = false)
    (hd : mx.obj.destroy = false) : RefOk (mutexRequestDestroy mx) n := by
  have hlive := h.live hr
  rw [hd, Bool.not_false, Bool.toNat_true] at hlive
  unfold mutexRequestDestroy
  dsimp only
  split
  · refine ⟨fun hr' => absurd (hr.symm.trans hr') Bool.false_ne_true, fun _ => ?_⟩
    change n + 0 ≤ mx.obj.ref - 1
    omega
  · rename_i hz
    have hz1 : ¬ 0 < mx.obj.ref - 1 := hz
    exact refOk_freeStorage (by omega)

end count

/-! ## Steps of the kernel -/

section steps

variable {c : Cfg} {y y' : Sync} {k : Kernel} {t : Tid} {m : Mid} {call old : Call}
  {f : SyncTcb → SyncTcb} {y₁ : Sync}

/-- One thread's call moves on. `n` is the number of locks other threads are in. -/
theorem Referenced.change (h : Referenced y)
    (hoth : ∀ u, u ≠ t → (y'.wait u).call = (y.wait u).call ∧ (y'.wait u).waitRefs = (y.wait u).waitRefs)
    (hrefs : (y'.wait t).waitRefs = refsOf (y'.wait t).call)
    (hm : ∀ m n, RefOk (y.mutex m) (n + lockCount m (y.wait t).call) →
      RefOk (y'.mutex m) (n + lockCount m (y'.wait t).call)) : Referenced y' where
  refs u := by
    by_cases hu : u = t
    · rw [hu]
      exact hrefs
    · rw [(hoth u hu).1, (hoth u hu).2]
      exact h.refs u
  users m := by
    obtain ⟨users, hmem, hok⟩ := h.users m
    have hold : users.card = (users.erase t).card + lockCount m (y.wait t).call := by
      unfold lockCount
      split
      · rename_i hin
        rw [card_erase_add_one ((hmem t).mpr hin)]
      · rename_i hin
        rw [erase_eq_of_notMem fun ht => hin ((hmem t).mp ht)]
        rfl
    rw [hold] at hok
    have hnew := hm m _ hok
    by_cases hin : InLock m (y'.wait t).call
    · refine ⟨insert t (users.erase t), fun u => ?_, ?_⟩
      · by_cases hu : u = t
        · rw [hu]
          exact iff_of_true (mem_insert_self _ _) hin
        · rw [mem_insert, mem_erase, (hoth u hu).1, ← hmem u]
          simp [hu]
      · rw [card_insert_of_notMem (notMem_erase _ _)]
        rwa [lockCount, if_pos hin] at hnew
    · refine ⟨users.erase t, fun u => ?_, ?_⟩
      · by_cases hu : u = t
        · rw [hu]
          exact iff_of_false (notMem_erase _ _) hin
        · rw [mem_erase, (hoth u hu).1, ← hmem u]
          simp [hu]
      · rwa [lockCount, if_neg hin] at hnew

/-- No call and no reference changes. -/
structure SameRefs (y y' : Sync) : Prop where
  call : ∀ u, (y'.wait u).call = (y.wait u).call
  refs : ∀ u, (y'.wait u).waitRefs = (y.wait u).waitRefs
  kept : ∀ m, RefKept (y.mutex m) (y'.mutex m)

theorem RefKept.refl (mx : Mutex) : RefKept mx mx := ⟨rfl, rfl, rfl⟩

theorem RefKept.trans {mx mx' mx'' : Mutex} (h : RefKept mx mx') (h' : RefKept mx' mx'') :
    RefKept mx mx'' :=
  ⟨h'.1.trans h.1, h'.2.1.trans h.2.1, h'.2.2.trans h.2.2⟩

theorem SameRefs.refl (y : Sync) : SameRefs y y := ⟨fun _ => rfl, fun _ => rfl, fun _ => .refl _⟩

theorem SameRefs.trans {y'' : Sync} (h : SameRefs y y') (h' : SameRefs y' y'') : SameRefs y y'' where
  call u := (h'.call u).trans (h.call u)
  refs u := (h'.refs u).trans (h.refs u)
  kept m := (h.kept m).trans (h'.kept m)

theorem Referenced.same (h : Referenced y) (hs : SameRefs y y') : Referenced y' where
  refs u := by rw [hs.refs, hs.call, h.refs]
  users m := by
    obtain ⟨users, hmem, hok⟩ := h.users m
    exact ⟨users, fun u => by rw [hs.call]; exact hmem u, (hs.kept m).refOk hok⟩

/-- A write to a mutex that its count allows. -/
theorem Referenced.write (h : Referenced y) {f : Mutex → Mutex}
    (hf : ∀ n, RefOk (y.mutex m) n → RefOk (f (y.mutex m)) n) : Referenced (y.modM m f) where
  refs := h.refs
  users m' := by
    obtain ⟨users, hmem, hok⟩ := h.users m'
    refine ⟨users, hmem, ?_⟩
    by_cases he : m' = m
    · subst he
      simpa only [modM, update_self] using hf _ hok
    · simpa only [modM, update_of_ne he] using hok

theorem sameRefs_modW
    (hf : ∀ x, (f x).call = x.call ∧ (f x).waitRefs = x.waitRefs) : SameRefs y (y.modW t f) where
  call u := by
    rw [modW_wait]
    split
    · rename_i hu
      rw [hu, (hf _).1]
    · rfl
  refs u := by
    rw [modW_wait]
    split
    · rename_i hu
      rw [hu, (hf _).2]
    · rfl
  kept _ := .refl _

theorem sameRefs_modM {f : Mutex → Mutex} (hf : RefKept (y.mutex m) (f (y.mutex m))) :
    SameRefs y (y.modM m f) where
  call _ := rfl
  refs _ := rfl
  kept m' := by
    by_cases he : m' = m
    · subst he
      simpa [modM] using hf
    · simpa [modM, he] using .refl _

theorem Unparks.refs {b : Bool} (h : Unparks b k k') : SameRefs k.toSync k'.toSync :=
  ⟨fun u => (h.wait u).call, fun u => (h.wait u).refs, fun m => by rw [h.mutex]; exact .refl _⟩

/-- The `hold_node` leaves its list and the owner is cleared. -/
theorem sameRefs_unhold {f : Mutex → Mutex} (hf : ∀ mx, RefKept mx (f mx)) :
    SameRefs y (((y.unhold m).endLocks m).modM m f) := by
  have h1 : SameRefs y ((y.unhold m).endLocks m) := ⟨fun _ => rfl, fun _ => rfl, fun _ => .refl _⟩
  exact h1.trans (sameRefs_modM (hf _))

theorem sameRefs_killHeld : SameRefs k.toSync (mutexKillHeld c k t).toSync :=
  foldlRecOn (motive := fun k' => SameRefs k.toSync k'.toSync) _ (mutexKillOne c) (.refl _)
    fun _ h _ _ => h.trans (Unparks.killWaiters.refs.trans (sameRefs_unhold
      (f := fun mx => { mx with owner := none, depth := 0, count := mx.maxCount }) fun _ => .refl _))

theorem sameRefs_takeOwnership : SameRefs y (takeOwnership y m t) :=
  (sameRefs_modM (.refl _)).trans
    (sameRefs_modW (f := fun x => { x with holdList := x.holdList ++ [m], locks := x.locks ++ [m] })
      fun _ => ⟨rfl, rfl⟩)

theorem refOk_drop {n : Nat} {m' : Mid} (hin : ∀ m', InLock m' call ↔ m = m')
    (hn : RefOk (y.mutex m') (n + lockCount m' call)) :
    RefOk ((y.modM m mutexObjRelease).mutex m') n := by
  by_cases he : m' = m
  · subst he
    rw [lockCount, if_pos ((hin m').mpr rfl)] at hn
    simp only [modM, update_self]
    exact hn.release
  · simp only [modM, update_of_ne he]
    exact hn.mono

section
variable (h : Referenced y)
include h

/-- The call of `t` moves on, and stays inside the lock or outside of it. -/
theorem Referenced.move
    (hoth : ∀ u, u ≠ t → (y'.wait u).call = (y.wait u).call ∧ (y'.wait u).waitRefs = (y.wait u).waitRefs)
    (hcall : (y'.wait t).call = call) (hrefs : (y'.wait t).waitRefs = refsOf call)
    (hin : ∀ m, lockCount m call = lockCount m (y.wait t).call)
    (hkept : ∀ m, RefKept (y.mutex m) (y'.mutex m)) : Referenced y' := by
  refine h.change hoth (hcall ▸ hrefs) fun m n hok => ?_
  rw [hcall, hin]
  exact (hkept m).refOk hok

/-- The recorded references change with the move. -/
theorem Referenced.record (hc : (y.wait t).call = old) (hs : SameRefs y y₁)
    {f : List RefId → List RefId} (hs' : SameRefs (y₁.modW t fun x => { x with waitRefs := f x.waitRefs }) y')
    (hrefs : f (refsOf old) = refsOf call) (hin : ∀ m, lockCount m call = lockCount m old) :
    Referenced (y'.modW t fun x => { x with call := call }) := by
  subst hc
  have hold : (y₁.wait t).waitRefs = refsOf (y.wait t).call := (hs.refs t).trans (h.refs t)
  refine h.move (fun u hu => ?_) ?_ ?_ hin fun m => ?_
  · have hc := hs'.call u
    have hr := hs'.refs u
    rw [modW_wait_ne _ hu] at hc hr ⊢
    exact ⟨hc.trans (hs.call u), hr.trans (hs.refs u)⟩
  · rw [modW_wait_self]
  · have hr := hs'.refs t
    rw [modW_wait_self] at hr ⊢
    rw [hr]
    exact (congrArg f hold).trans hrefs
  · exact (hs.kept m).trans (hs'.kept m)

theorem Referenced.setCall (hc : (y.wait t).call = old) (hs : SameRefs y y')
    (hrefs : refsOf old = refsOf call) (hin : ∀ m, lockCount m call = lockCount m old) :
    Referenced (y'.modW t fun x => { x with call := call }) := by
  refine h.record hc hs (f := id) ?_ hrefs hin
  exact ⟨fun u => by rw [modW_wait]; split <;> simp_all, fun u => by rw [modW_wait]; split <;> simp_all,
    fun _ => .refl _⟩

theorem Referenced.push (hc : (y.wait t).call = old) (hs : SameRefs y y₁) {r : RefId}
    (hs' : SameRefs (syncWaitRefPush y₁ t r) y') (hlen : (refsOf old).length < 2)
    (hrefs : r :: refsOf old = refsOf call) (hin : ∀ m, lockCount m call = lockCount m old) :
    Referenced (y'.modW t fun x => { x with call := call }) := by
  rw [syncWaitRefPush, if_neg (by rw [hs.refs, h.refs, hc]; omega)] at hs'
  exact h.record hc hs hs' hrefs hin

end

end steps

/-! ## Lock and unlock -/

section sections

variable {c : Cfg} {k : Kernel} {t : Tid} {m : Mid} {y : Sync}

section
variable (h : Referenced k.toSync)
include h

namespace Referenced

theorem lockBegin (hc : (k.wait t).call = .none)
    (hr : (k.mutex m).reclaimed = false) (hlt : (k.mutex m).obj.ref < 255) (timeout : BitVec 32) :
    Referenced (lockBegin k t m timeout).toSync := by
  unfold Os.lockBegin
  dsimp only
  split
  · rename_i hok
    have hd : (k.mutex m).obj.destroy = false := by
      unfold objAcquire at hok
      split at hok
      · cases hok
      · rename_i hd
        exact eq_false_of_ne_true hd
    refine h.change (t := t) (fun u hu => ?_) ?_ fun m' n hn => ?_
    · simp [Kernel.setCall, modW_wait_ne _ hu]
    · simp only [Kernel.setCall, modW_wait_self, modM_wait]
      rw [h.refs, hc]
      rfl
    · simp only [Kernel.setCall, modW_wait_self, modW_mutex]
      rw [hc] at hn
      by_cases he : m' = m
      · subst he
        simp only [modM, update_self]
        rw [show lockCount m' (.lockEnter m' timeout) = 1 from if_pos rfl]
        exact RefOk.acquire hn hr hd hlt
      · simp only [modM, update_of_ne he]
        rw [show lockCount m' (.lockEnter m timeout) = 0 from if_neg fun he' => he he'.symm]
        exact hn
  · exact h

variable {timeout : BitVec 32}

theorem lockFirst
    (hc : (k.wait t).call = .lockEnter m timeout) : Referenced (lockFirst c k t m timeout).toSync := by
  -- the call leaves the section with what it recorded when it came
  have hstay : ∀ {y : Sync} {ret : Err}, SameRefs k.toSync y →
      Referenced (y.modW t fun x => { x with call := .lockRelease m ret }) := fun hs =>
    h.setCall hc hs rfl fun _ => rfl
  unfold Os.lockFirst
  dsimp only
  split
  · exact hstay ((sameRefs_modM (.refl _)).trans sameRefs_takeOwnership)
  split
  · split
    · exact hstay (.refl _)
    · exact hstay (sameRefs_modM (f := fun mx => { mx with depth := mx.depth + 1 }) (.refl _))
  split
  · exact hstay (.refl _)
  split
  · exact h.push hc (sameRefs_modW (f := fun x => { x with waitMutex := some m })
      fun _ => ⟨rfl, rfl⟩) (.refl _) Nat.zero_lt_two rfl fun _ => rfl
  · exact h.push hc (.refl _) (.refl _) Nat.zero_lt_two rfl fun _ => rfl

theorem lockSemAcquire (hc : (k.wait t).call = .lockTake m timeout) :
    Referenced (lockSemAcquire k t m timeout).toSync := by
  unfold Os.lockSemAcquire
  dsimp only
  split
  · exact h.setCall hc (sameRefs_modM (f := fun mx =>
      { mx with semObj := (objAcquire (k.mutex m).semObj).2 }) (.refl _)) rfl fun _ => rfl
  · exact h.setCall hc (.refl _) rfl fun _ => rfl

/-- A call parks and records the reference its wait holds. -/
theorem park {call : Call} (hc : (k.wait t).call = call) (w : WaitId) (timeout : BitVec 32) {r : RefId}
    (hlen : (refsOf call).length < 2) (hrefs : r :: refsOf call = refsOf (parkedCall w))
    (hin : ∀ m, lockCount m (parkedCall w) = lockCount m call) :
    Referenced ((syncWaitPark c k t w timeout r).setCall t (parkedCall w)).toSync := by
  have hs : SameRefs (syncWaitRefPush (k.toSync.modW t fun x =>
      { x with waitList := some w, waitStatus := false }) t r) (syncWaitPark c k t w timeout r).toSync :=
    ⟨fun _ => rfl, fun _ => rfl, fun _ => .refl _⟩
  exact h.push hc (sameRefs_modW (f := fun x => { x with waitList := some w, waitStatus := false })
    fun _ => ⟨rfl, rfl⟩) hs hlen hrefs hin

theorem lockSemTake
    (hc : (k.wait t).call = .lockWait m timeout) : Referenced (lockSemTake c k t m timeout).toSync := by
  unfold Os.lockSemTake
  split
  · exact h.setCall hc (sameRefs_modM (f := fun mx => { mx with count := mx.count - 1 }) (.refl _))
      rfl fun _ => rfl
  split
  · exact h.setCall hc (.refl _) rfl fun _ => rfl
  · exact h.park hc (.mutex m) timeout Nat.one_lt_two rfl fun _ => rfl

theorem waitDone {call call' : Call} (hc : (k.wait t).call = call)
    (hrefs : (refsOf call).tail = refsOf call') (hin : ∀ m, lockCount m call' = lockCount m call) :
    Referenced ((syncWaitDone k t).2.setCall t call').toSync :=
  h.record hc (sameRefs_modW (f := fun x => { x with waitStatus := true })
    fun _ => ⟨rfl, rfl⟩) (.refl _) hrefs hin

variable {ret : Err}

theorem lockSemRelease
    (hc : (k.wait t).call = .lockTaken m ret) : Referenced (lockSemRelease k t m ret).toSync :=
  h.setCall hc (sameRefs_modM (f := fun mx => { mx with semObj := objDrop mx.semObj }) (.refl _))
    rfl fun _ => rfl

theorem lockLast
    (hc : (k.wait t).call = .lockExit m ret) : Referenced (lockLast c k t m ret).toSync := by
  have hw : SameRefs (syncWaitRefPop k.toSync t)
      ((syncWaitRefPop k.toSync t).modW t fun x => { x with waitMutex := none }) :=
    sameRefs_modW fun _ => ⟨rfl, rfl⟩
  have hpop : ∀ {y : Sync}, SameRefs (syncWaitRefPop k.toSync t) y →
      Referenced (y.modW t fun x => { x with call := .lockRelease m ret }) := fun hs =>
    h.record hc (.refl _) hs rfl fun _ => rfl
  unfold Os.lockLast
  dsimp only
  split
  · exact hpop (hw.trans sameRefs_takeOwnership)
  · split <;> exact hpop hw
  · exact hpop hw

/-- The lock gives its reference back, and the storage with it if it was the last. -/
theorem lockEnd
    (hc : (k.wait t).call = .lockRelease m ret) : Referenced (lockEnd k t m).toSync := by
  refine h.change (t := t) (fun u hu => ?_) ?_ fun m' n hn => ?_
  · simp [Os.lockEnd, Kernel.setCall, modW_wait_ne _ hu, refRelease]
  · simp only [Os.lockEnd, Kernel.setCall, modW_wait_self, refRelease, modM_wait]
    rw [h.refs, hc]
    rfl
  · simp only [Os.lockEnd, Kernel.setCall, modW_wait_self, modW_mutex, refRelease]
    rw [hc] at hn
    exact refOk_drop (fun _ => Iff.rfl) hn

theorem unlockFirst (hc : (k.wait t).call = .none) : Referenced (unlockFirst c k t m).toSync := by
  unfold Os.unlockFirst
  dsimp only
  split
  · exact h
  split
  · exact h.same (sameRefs_modM (f := fun mx => { mx with depth := (mx.depth + 255) % 256 }) (.refl _))
  have h1 : SameRefs k.toSync (k.toSync.unhold m) := ⟨fun _ => rfl, fun _ => rfl, fun _ => .refl _⟩
  exact h.setCall hc ((h1.trans (sameRefs_modW (f := fun x => { x with locks := x.locks.erase m })
    fun _ => ⟨rfl, rfl⟩)).trans (sameRefs_modM (f := fun mx =>
      { mx with depth := 0, owner := none }) (.refl _))) rfl fun _ => rfl

theorem unlockGive (hc : (k.wait t).call = .unlockGive m) :
    Referenced (unlockGive c k t m).toSync := by
  have hend : ∀ {y : Sync}, SameRefs k.toSync y →
      Referenced (y.modW t fun x => { x with call := .none }) := fun hs =>
    h.setCall hc hs rfl fun _ => rfl
  unfold Os.unlockGive
  dsimp only
  split
  · exact hend (Unparks.wake true).refs
  · split
    · exact hend (.refl _)
    · exact hend (sameRefs_modM (f := fun mx => { mx with count := mx.count + 1 }) (.refl _))

end Referenced

end

/-! ## Deletion -/

theorem Referenced.deleteCommon (h : Referenced k.toSync) {isStatic : Bool}
    (hr : (k.mutex m).reclaimed = false)
    (hd : mutexDeleteCheck k m isStatic = .ok → (k.mutex m).obj.destroy = false) :
    Referenced (mutexDeleteCommon c k m isStatic).2.toSync := by
  have hreq : ∀ {y : Sync}, SameRefs k.toSync y → (k.mutex m).obj.destroy = false →
      Referenced (y.modM m mutexRequestDestroy) := fun hs hd => (h.same hs).write fun _ hok =>
    hok.requestDestroy ((hs.kept m).1.trans hr) ((hs.kept m).2.1.trans hd)
  unfold Os.mutexDeleteCommon
  split
  · rename_i hok
    dsimp only
    split
    · exact hreq (Unparks.killWaiters.refs.trans (sameRefs_unhold
        (f := fun mx => { mx with owner := none, depth := 0 }) fun _ => .refl _)) (hd hok)
    · exact hreq (.refl _) (hd hok)
  · exact h

/-- The references recorded for a call are dropped: at most the one of its lock. -/
theorem refOk_dropAll (h : Referenced y) {n : Nat} {m : Mid}
    (hn : RefOk (y.mutex m) (n + lockCount m (y.wait t).call)) :
    RefOk ((syncWaitRefDropAll y t).mutex m) n := by
  unfold syncWaitRefDropAll
  rw [h.refs]
  generalize hy : (y.modW t fun x => { x with waitRefs := [] }) = y1
  have hmx : y1.mutex = y.mutex := by rw [← hy]; rfl
  rw [← hmx] at hn
  cases hc : (y.wait t).call <;> rw [hc] at hn <;>
    simp only [refsOf, foldl_cons, foldl_nil, refRelease]
  case lockParked m0 =>
    refine refOk_drop (fun m' => (Iff.rfl : InLock m' (.lockParked m0) ↔ m0 = m')) ?_
    exact ((sameRefs_modM (.refl _)).kept m).refOk hn
  case lockTake => exact refOk_drop (fun _ => Iff.rfl) hn
  case lockWait => exact refOk_drop (fun _ => Iff.rfl) hn
  case lockTaken => exact refOk_drop (fun _ => Iff.rfl) hn
  case lockExit => exact refOk_drop (fun _ => Iff.rfl) hn
  all_goals exact hn.mono

theorem threadDelete_others {u : Tid} (hu : u ≠ t) :
    ((threadDelete c k t).wait u).call = (k.wait u).call ∧
      ((threadDelete c k t).wait u).waitRefs = (k.wait u).waitRefs := by
  have hunlink := (Unparks.threadUnlink (b := true) (c := c) (k := k) (t := t)).refs
  unfold threadDelete
  dsimp only
  rw [modW_wait_ne _ hu, sameRefs_killHeld.call, sameRefs_killHeld.refs, syncWaitRefDropAll_wait,
    if_neg hu, hunlink.call, hunlink.refs]
  exact ⟨rfl, rfl⟩

theorem threadDelete_self : (threadDelete c k t).wait t = .init := by
  unfold threadDelete
  dsimp only
  rw [modW_wait_self]

/-- The deleted thread's lock is over. -/
theorem Referenced.delete (h : Referenced k.toSync) : Referenced (threadDelete c k t).toSync := by
  have hunlink := (Unparks.threadUnlink (b := true) (c := c) (k := k) (t := t)).refs
  refine h.change (fun u hu => threadDelete_others hu) ?_ fun m n hn => ?_
  · rw [threadDelete_self]
    rfl
  · rw [threadDelete_self]
    refine (sameRefs_killHeld.kept m).refOk (refOk_dropAll (h.same hunlink) ?_)
    rw [hunlink.call]
    exact (hunlink.kept m).refOk hn

theorem Referenced.spawn (h : Referenced y) : Referenced (y.modW t fun _ => .init) := by
  refine h.change (t := t) (fun u hu => ?_) ?_ fun m n hok => ?_
  · rw [modW_wait_ne _ hu]
    exact ⟨rfl, rfl⟩
  · rw [modW_wait_self]
    rfl
  · rw [modW_wait_self]
    exact hok.mono

theorem Referenced.createMutex (h : Referenced y) (hr : (y.mutex m).reclaimed = true)
    (isRecursive heapOwned : Bool) :
    Referenced (y.modM m fun _ => mutexInit isRecursive heapOwned) := h.write fun _ hok => by
  rw [hok.gone hr]
  exact ⟨fun _ => rfl, fun _ => le_refl 1⟩

end sections

/-! ## Runs -/

def locking : Label → Option Mid
  | .lock m _ => some m
  | _ => none

/-- The conditions of a step: a lock finds fewer than 255 references; a deletion that is not refused is
the first one, and comes when no call has the unit of the mutex or can still take it; the rest is about
threads that exit or are deleted. -/
def DescriptorSafe (c : Cfg) (k : Kernel) (l : Label) : Prop := StepKeeps c k l ∧ StepKillSafe k l ∧
    (∀ d ∈ deletion l, MutexDeleteSafe k d.1 d.2 ∧
      (mutexDeleteCheck k d.1 d.2 = .ok → (k.mutex d.1).obj.destroy = false)) ∧
    ∀ m ∈ locking l, (k.mutex m).obj.ref < 255

section run

variable {c : Cfg} {k k' : Kernel} {t : Tid}

theorem Referenced.step (h : Referenced k.toSync) (hx : Exclusive c k) {l : Label}
    (hs : DescriptorSafe c k l) (hk : step c k l = some k') : Referenced k'.toSync := by
  obtain ⟨-, -, hd, hl⟩ := hs
  -- a call that begins or ends without a reference
  have hquiet : ∀ {t : Tid} {call call' : Call}, (k.wait t).call = call → refsOf call = refsOf call' →
      (∀ m, lockCount m call' = lockCount m call) →
      Referenced (k.toSync.modW t fun x => { x with call := call' }) := fun hc => h.setCall hc (.refl _)
  cases move_of_step hk with
  | tick => exact h.same Unparks.tick.refs
  | switch | reap => exact h
  | wake => exact h.same (Unparks.wake _).refs
  | create =>
    unfold threadCreate
    split
    · exact h
    · exact h.spawn
  | createDl =>
    unfold deadlineThreadCreate
    split
    · exact h
    · split
      · exact h
      · exact h.spawn
  | mutexCreate => exact h.createMutex (hx.owned.freshM _ (le_refl _)) _ _
  | enableKill => exact h.same (sameRefs_modM (f := fun mx =>
      { mx with obj := { mx.obj with kill := true, timeout := true } }) (.refl _))
  | lockFirst _ hc => exact h.lockFirst hc
  | lockSemAcquire _ hc => exact h.lockSemAcquire hc
  | lockSemTake _ hc => exact h.lockSemTake hc
  | lockUnparked _ hc | unparked _ hc => exact h.waitDone hc rfl fun _ => rfl
  | lockSemRelease _ hc => exact h.lockSemRelease hc
  | lockLast _ hc => exact h.lockLast hc
  | lockEnd _ hc => exact h.lockEnd hc
  | unlockGive _ hc => exact h.unlockGive hc
  | resumed _ hc =>
    refine h.setCall hc ?_ rfl fun _ => rfl
    unfold threadResume
    dsimp only
    split <;> exact .refl _
  | @deleted t u _ hc =>
    have hcall : ((threadDelete c k u).wait t).call = .delete u ∨
        ((threadDelete c k u).wait t).call = .none := by
      by_cases hu : t = u
      · rw [hu, threadDelete_self]
        exact .inr rfl
      · rw [(threadDelete_others hu).1]
        exact .inl hc
    rcases hcall with hcall | hcall <;> exact h.delete.setCall hcall (.refl _) rfl fun _ => rfl
  | recomputed _ hc => exact hquiet hc rfl fun _ => rfl
  | stale _ hc => rcases hc with hc | hc | hc <;> exact hquiet hc rfl fun _ => rfl
  | lock _ hc hm => exact h.lockBegin hc hm (hl _ rfl) _
  | unlock _ hc => exact h.unlockFirst hc
  | mutexDelete hm => exact h.deleteCommon hm (hd _ rfl).2
  | delay =>
    unfold scheduleDelay
    split <;> exact h
  | park _ hc =>
    exact h.park hc (.obj _) _ Nat.zero_lt_two rfl fun _ => rfl
  | jobFinish =>
    unfold deadlineJobFinish
    dsimp only
    split <;> exact h
  | exit => exact h.same sameRefs_killHeld
  | suspend => exact h.same (Unparks.suspend (b := true)).refs
  | setBandwidth =>
    unfold deadlineThreadSetBandwidth
    extract_lets x r p
    split_ifs <;> exact h
  | resume _ hc | delete _ hc | setPriority _ hc | setDeadline _ hc =>
    exact hquiet hc rfl fun _ => rfl

theorem referenced_isInvariant (c : Cfg) : ((kernel c).restrict (DescriptorSafe c)).IsInvariant
    fun k => Exclusive c k ∧ Referenced k.toSync where
  init _ hk := hk ▸ ⟨⟨intact_boot c, owned_boot c⟩, referenced_boot c⟩
  step _ _ _ h hs := ⟨h.1.step hs.1.1 hs.1.2.1 (fun d hd => (hs.1.2.2.1 d hd).1) hs.2,
    h.2.step h.1 hs.1 hs.2⟩

end run

/-! ## Reclaimed descriptors -/

/-- What of a thread leads to the descriptor of `m`: a step of a call on it that is still to come, its
`hold_node`, its wait list, or a recorded reference. -/
def Refers (x : SyncTcb) (m : Mid) : Prop :=
  InLock m x.call ∨ x.call = .unlockGive m ∨ m ∈ x.holdList ∨ x.waitList = some (.mutex m) ∨
    .mutex m ∈ x.waitRefs ∨ .mutexSem m ∈ x.waitRefs

/-- A mutex that was given back is reached by no thread any more. -/
def DescriptorsLive (k : Kernel) : Prop :=
  ∀ m, (k.mutex m).reclaimed = true → k.waiters (.mutex m) = [] ∧ ∀ t, ¬ Refers (k.wait t) m

/-- A recorded reference is that of a lock in flight. -/
theorem inLock_of_refsOf {call : Call} {m : Mid}
    (h : .mutex m ∈ refsOf call ∨ .mutexSem m ∈ refsOf call) : InLock m call := by
  cases call <;> simp [refsOf] at h <;> exact h.symm

theorem Referenced.descriptorsLive {c : Cfg} {k : Kernel} (h : Referenced k.toSync)
    (hx : Exclusive c k) : DescriptorsLive k := by
  intro m hr
  obtain ⟨users, hmem, hok⟩ := h.users m
  have hin : ∀ t, ¬ InLock m (k.wait t).call := fun t ht => by
    have hpos := card_pos.mpr ⟨t, (hmem t).mpr ht⟩
    have hzero := hok.gone hr
    omega
  have hunit := (hx.owned.dead m (.inr hr)).1
  have hwait : ∀ t, (k.wait t).waitList ≠ some (.mutex m) := fun t ht =>
    hin t (by rw [(hx.owned.parked t _ ht).1]; rfl)
  refine ⟨eq_nil_iff_forall_not_mem.mpr fun t ht =>
    hwait t ((hx.intact.parked.mem_iff _ t).mp ht), fun t => ?_⟩
  rintro (hl | hu | hh | hw | hrefs)
  · exact hin t hl
  · refine hunit (.call t) ?_
    rw [UnitAt, HasUnit, hu]
  · exact hunit (.owner t) ((hx.owned.hold m t).mp hh)
  · exact hwait t hw
  · rw [h.refs] at hrefs
    exact hin t (inLock_of_refsOf hrefs)

theorem descriptorsLive_of_reachable (c : Cfg) (k : Kernel)
    (hr : ((kernel c).restrict (DescriptorSafe c)).Reachable k) : DescriptorsLive k :=
  have h := (referenced_isInvariant c).holds hr
  h.2.descriptorsLive h.1

/-- A mutex that has an owner is deleted when no call has its unit. -/
theorem Exclusive.mutexDeleteSafe {c : Cfg} {k : Kernel} (h : Exclusive c k) {m : Mid} {t : Tid}
    (ho : (k.mutex m).owner = some t) (isStatic : Bool) : MutexDeleteSafe k m isStatic := by
  intro _
  have hunit := h.owned.unit m
  refine ⟨fun u hu => ?_, .inl (hunit.apart (.owner t) ho)⟩
  have := hunit.unique (.owner t) (.call u) ho hu
  cases this

/-- A thread parks on a mutex, the mutex is deleted, and the thread gives it back. -/
theorem descriptorsLive_of_reachable_deleted : ∃ k : Kernel,
    ((k.mutex 0).reclaimed = true ∧ (k.mutex 0).obj.heapOwned = true) ∧ DescriptorsLive k := by
  obtain ⟨k, hk, hp⟩ := kernel_execOk (Cfg.build false false)
    (fun k l => StepKeeps (Cfg.build false false) k l ∧ StepKillSafe k l ∧
      (∀ d ∈ deletion l, (k.mutex d.1).owner = some 0 ∧ (k.mutex d.1).obj.destroy = false) ∧
      ∀ m ∈ locking l, (k.mutex m).obj.ref < 255)
    [.create 5, .create 5, .mutexCreate false true, .enableKill 0, .switch, .lock 0 0, .cs, .cs,
      .switch, .lock 0 (-1), .cs, .cs, .cs, .switch, .mutexDelete 0 false, .switch, .cs, .cs, .cs, .cs]
    (fun k => (k.mutex 0).reclaimed = true ∧ (k.mutex 0).obj.heapOwned = true)
    (by decide +kernel)
  refine ⟨k, hp, descriptorsLive_of_reachable (Cfg.build false false) k ?_⟩
  refine hk.mono_of_reachable fun k l hr hl => ⟨hl.1, hl.2.1, fun d hd => ?_, hl.2.2.2⟩
  have hx := ((referenced_isInvariant _).holds hr).1
  exact ⟨hx.mutexDeleteSafe (hl.2.2.1 d hd).1 d.2, fun _ => (hl.2.2.1 d hd).2⟩

/-- The owner of an armed mutex with a waiter is between the two critical sections of its unlock when
the mutex is deleted; the waiter leaves, gives the mutex back, and the give is still to come. -/
theorem descriptorsLive_fails_in_unlock :
    ¬ ∀ k, (kernel (Cfg.build false false)).Reachable k → DescriptorsLive k := by
  intro h
  obtain ⟨k, hk, hr, hc⟩ := kernel_exec (Cfg.build false false)
    [.create 5, .create 5, .create 5, .mutexCreate false true, .enableKill 0, .switch, .lock 0 0, .cs,
      .cs, .switch, .lock 0 (-1), .cs, .cs, .cs, .switch, .unlock 0, .switch, .mutexDelete 0 false,
      .switch, .cs, .cs, .cs, .cs]
    (fun k => (k.mutex 0).reclaimed = true ∧ (k.wait 0).call = .unlockGive 0)
    (by decide +kernel)
  exact (h k hk 0 hr).2 0 (.inr (.inl hc))

end MiniTree.Os
