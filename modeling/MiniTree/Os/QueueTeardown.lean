import Mathlib.Data.Finset.Card
import MiniTree.Os.QueueWake

/-!
# Teardown of a heap queue

A queue made by `mini_os_queue_create` owns two heap blocks, the descriptor and the message
pool. After the destroy request the last user frees both: a call frees the pool in the first
critical section of `mini_os_queue_release`, if it finds itself alone, and the descriptor in
`mini_os_obj_release`, if its reference was the last. Three things break this:

* a deleted waiter drops its reference with `mini_os_obj_release` alone, so if it was the
  last user the pool stays;
* between its two critical sections a call that was not alone may become the last user;
* `obj_ref` has eight bits, so 255 calls in flight wrap it to 0.

**Results.** `tornDown_of_reachable`: in every run without these three each block is freed
exactly once, when no call can use it any more. `tornDown_fails_after_waiter_delete` shows the
leak of the pool.
-/

namespace MiniTree.Os

open MiniTree.Core Function List Option
open Finset (mem_insert card_pos mem_erase card_eq_zero card_le_one)

namespace Waits

variable {ι : Type}

section
variable (w w' : Waits ι) (i : ι)

/-- No thread is deleted and no recorded reference is touched. -/
def SameLife : Prop := ∀ t, ((w'.thr t).run = .deleted ↔ (w.thr t).run = .deleted) ∧
    (w'.thr t).waitRef = (w.thr t).waitRef

theorem SameLife.refl : SameLife w w :=
  fun _ => ⟨Iff.rfl, rfl⟩

theorem SameLife.trans {w w' w'' : Waits ι} (h : SameLife w w') (h' : SameLife w' w'') :
    SameLife w w'' :=
  fun t => ⟨(h' t).1.trans (h t).1, (h' t).2.trans (h t).2⟩

/-- A write to one thread that leaves its life alone. -/
theorem sameLife_modW {w : Waits ι} {t : Tid} {f : WaitTcb ι → WaitTcb ι} {lists : ι → List Tid}
    (hrun : (f (w.thr t)).run = .deleted ↔ (w.thr t).run = .deleted)
    (href : (f (w.thr t)).waitRef = (w.thr t).waitRef) :
    SameLife w ({ w with lists := lists }.modW t f) := by
  intro u
  rw [modW_thr]
  split
  · rename_i hu
    subst hu
    exact ⟨hrun, href⟩
  · exact ⟨Iff.rfl, rfl⟩

theorem sameLife_syncWakeThread (t : Tid) (succeeded : Bool) :
    SameLife w (w.syncWakeThread t succeeded) :=
  sameLife_modW Iff.rfl rfl

theorem sameLife_wakeOne : SameLife w (w.wakeOne i).2 := by
  unfold wakeOne
  split
  · exact .refl w
  · exact sameLife_syncWakeThread w _ true

theorem sameLife_syncWakeAll (succeeded : Bool) : SameLife w (w.syncWakeAll i succeeded) := by
  unfold syncWakeAll
  generalize w.lists i = l
  induction l generalizing w with
  | nil => exact .refl w
  | cons t l ih => exact (sameLife_syncWakeThread w t succeeded).trans (ih _)

theorem expire_waitRef (x : WaitTcb ι) : (expire x).waitRef = x.waitRef := by
  fun_cases expire x <;> rfl

theorem sameLife_tickDecrement : SameLife w w.tickDecrement := by
  intro t
  constructor
  · show (expire (w.thr t)).run = _ ↔ _
    rw [expire_run]
  · exact expire_waitRef _

theorem sameLife_suspend (t : Tid) : SameLife w (w.suspend t) := by
  unfold suspend
  split
  · rename_i hrun
    exact sameLife_modW (by simp [hrun]) rfl
  · exact .refl w

theorem sameLife_resume (t : Tid) : SameLife w (w.resume t) := by
  unfold resume
  split
  · rename_i n hrun
    exact sameLife_modW (by simp [hrun]) rfl
  · exact .refl w

end

end Waits

namespace QueueSys

/-- The call has taken its reference and has not given it back; its thread still exists. -/
def InFlight (s : QueueSys) (t : Tid) : Prop := s.pc t ≠ .idle ∧ (s.waits.thr t).run ≠ .deleted

/-- Only `mini_os_obj_release` is left, which touches the descriptor but not the pool. -/
def AtRelease : QueuePc → Prop
  | .release _ _ _ => True
  | _ => False

/-- Each block is freed once, not before the calls are done with it, and not later. -/
structure TornDown (s : QueueSys) : Prop where
  desc_once : s.descFrees ≤ 1
  pool_once : s.poolFrees ≤ 1
  desc_unused : 0 < s.descFrees → ∀ t, ¬ InFlight s t
  pool_unused : 0 < s.poolFrees → ∀ t, InFlight s t → AtRelease (s.pc t)
  freed : s.q.obj.destroy = true → (∀ t, ¬ InFlight s t) → s.descFrees = 1 ∧ s.poolFrees = 1

/-- The steps of the property: sends and receives, the deletion of the queue with
`mini_os_queue_delete`, and of threads whose wait has not returned. -/
def TeardownStep (s : QueueSys) : Label → Prop
  | .sendIsr _ | .receiveIsr => False
  | .deleteThread t => (s.waits.thr t).waitRef = true
  | .delete isStatic => isStatic = false
  | _ => True

/-- A reference goes while another call is left alone past its pool check. -/
def LeavesChecked (s : QueueSys) (t : Tid) : Prop := s.q.obj.ref = 2 ∧ ∃ u ∈ s.checked, u ≠ t
  deriving Decidable

/-- The three exceptions. -/
def TeardownSafe (s : QueueSys) (l : Label) : Prop := TeardownStep s l ∧
    match l with
    | .send _ _ _ _ | .receive _ _ _ => s.q.obj.ref < 255
    | .cs t => t ∈ s.checked → s.q.obj.destroy = true → ¬ s.LeavesChecked t
    | .deleteThread t => s.q.obj.destroy = true → s.q.obj.ref ≠ 1 ∧ ¬ s.LeavesChecked t
    | .delete _ => ¬ (s.q.obj.ref = 2 ∧ s.checked ≠ [])
    | _ => True

instance (s : QueueSys) : (l : Label) → Decidable (TeardownStep s l)
  | .sendIsr _ | .receiveIsr => inferInstanceAs (Decidable False)
  | .deleteThread t => inferInstanceAs (Decidable ((s.waits.thr t).waitRef = true))
  | .delete isStatic => inferInstanceAs (Decidable (isStatic = false))
  | .send _ _ _ _ | .receive _ _ _ | .cs _ | .tick | .suspend _ | .resume _
  | .enableKill => inferInstanceAs (Decidable True)

instance (s : QueueSys) : (l : Label) → Decidable (TeardownSafe s l)
  | .send _ _ _ _ | .receive _ _ _ =>
    inferInstanceAs (Decidable (TeardownStep s _ ∧ s.q.obj.ref < 255))
  | .cs t => inferInstanceAs (Decidable (TeardownStep s _ ∧
      (t ∈ s.checked → s.q.obj.destroy = true → ¬ s.LeavesChecked t)))
  | .deleteThread t => inferInstanceAs (Decidable (TeardownStep s _ ∧
      (s.q.obj.destroy = true → s.q.obj.ref ≠ 1 ∧ ¬ s.LeavesChecked t)))
  | .delete _ => inferInstanceAs (Decidable (TeardownStep s _ ∧
      ¬ (s.q.obj.ref = 2 ∧ s.checked ≠ [])))
  | .sendIsr _ | .receiveIsr | .tick | .suspend _ | .resume _ | .enableKill =>
    inferInstanceAs (Decidable (TeardownStep s _ ∧ True))

/-! ## The invariant -/

def IsParked : QueuePc → Prop
  | .parked _ _ _ => True
  | _ => False

attribute [local simp] AtRelease IsParked setPc_pc_self

structure Tear (s : QueueSys) (users : Finset Tid) : Prop where
  heap : s.q.obj.heapOwned = true
  mem_users : ∀ t, t ∈ users ↔ InFlight s t
  ref_eq : s.q.obj.ref = users.card + if s.q.obj.destroy then 0 else 1
  waiter : ∀ t, (s.waits.thr t).waitRef = true → IsParked (s.pc t)
  checked_nodup : s.checked.Nodup
  mem_checked : ∀ t, t ∈ s.checked ↔ t ∈ users ∧ AtRelease (s.pc t)
  desc_eq : s.descFrees = if s.q.obj.destroy = true ∧ users = ∅ then 1 else 0
  pool_eq : s.poolFrees =
    if s.q.obj.destroy = true ∧ users.card ≤ 1 ∧ ∀ t ∈ users, t ∈ s.checked then 1 else 0

theorem Tear.tornDown {s : QueueSys} {users : Finset Tid} (h : Tear s users) : TornDown s := by
  have hdesc := h.desc_eq
  have hpool := h.pool_eq
  refine ⟨?_, ?_, fun hpos t ht => ?_, fun hpos t ht => ?_, fun hdestroy hnone => ?_⟩
  · rw [hdesc]
    split <;> omega
  · rw [hpool]
    split <;> omega
  · split at hdesc
    · rename_i hcond
      have := (h.mem_users t).mpr ht
      rw [hcond.2] at this
      exact absurd this (Finset.notMem_empty t)
    · omega
  · split at hpool
    · rename_i hcond
      have hu := (h.mem_users t).mpr ht
      exact ((h.mem_checked t).mp (hcond.2.2 t hu)).2
    · omega
  · have hempty : users = ∅ := Finset.eq_empty_of_forall_notMem fun t ht => hnone t ((h.mem_users t).mp ht)
    subst hempty
    rw [if_pos ⟨hdestroy, rfl⟩] at hdesc
    rw [if_pos ⟨hdestroy, by simp, by simp⟩] at hpool
    exact ⟨hdesc, hpool⟩

/-! ## Steps that keep every reference -/

section Steps

variable {s s' : QueueSys} {users : Finset Tid}

/-- What the counts depend on besides the threads. -/
def counts (s : QueueSys) : Bool × Nat × Bool × List Tid × Nat × Nat :=
  (s.q.obj.heapOwned, s.q.obj.ref, s.q.obj.destroy, s.checked, s.descFrees, s.poolFrees)

theorem Tear.same (h : Tear s users) (hf : s'.counts = s.counts)
    (hflight : ∀ t, InFlight s' t ↔ InFlight s t) (hrel : ∀ t, AtRelease (s'.pc t) ↔ AtRelease (s.pc t))
    (hwait : ∀ t, (s'.waits.thr t).waitRef = true → IsParked (s'.pc t)) : Tear s' users := by
  simp only [counts, Prod.mk.injEq] at hf
  obtain ⟨hheap, href, hdestroy, hchk, hdesc, hpool⟩ := hf
  refine ⟨hheap.trans h.heap, fun t => (h.mem_users t).trans (hflight t).symm, ?_, hwait,
    hchk ▸ h.checked_nodup, fun t => ?_, ?_, ?_⟩
  · rw [href, hdestroy, h.ref_eq]
  · rw [hchk, hrel, h.mem_checked]
  · rw [hdesc, hdestroy, h.desc_eq]
  · rw [hpool, hdestroy, hchk, h.pool_eq]

/-- The step moves no program counter. -/
structure Kept (s s' : QueueSys) : Prop where
  counts : s'.counts = s.counts
  pc : s'.pc = s.pc
  life : Waits.SameLife s.waits s'.waits

theorem Tear.keep (h : Tear s users) (hk : Kept s s') : Tear s' users := by
  refine h.same hk.counts (fun t => ?_) (fun t => by rw [hk.pc]) fun t ht => ?_
  · unfold InFlight
    rw [hk.pc, ne_eq, ne_eq, (hk.life t).1]
  · rw [(hk.life t).2] at ht
    rw [hk.pc]
    exact h.waiter t ht

variable {t : Tid} {op : QueueOp} {timeout deadline : UInt32} {inThread : Bool} {out : Bytes}

section
variable (h : Tear s users)
include h

/-- The step moves the call of `t` between two places where it holds its reference. -/
theorem Tear.move {p : QueuePc} (hf : s'.counts = s.counts) (hpc : s'.pc = update s.pc t p)
    (hrun : ∀ u, (s'.waits.thr u).run = .deleted ↔ (s.waits.thr u).run = .deleted)
    (hwait : ∀ u ≠ t, (s'.waits.thr u).waitRef = (s.waits.thr u).waitRef)
    (hbefore : s.pc t ≠ .idle ∧ ¬ AtRelease (s.pc t)) (hafter : p ≠ .idle ∧ ¬ AtRelease p)
    (href : (s'.waits.thr t).waitRef = true → IsParked p) : Tear s' users := by
  have hself : s'.pc t = p := by rw [hpc, update_self]
  have hother : ∀ u ≠ t, s'.pc u = s.pc u := fun u hu => by rw [hpc, update_of_ne hu]
  refine h.same hf (fun u => ?_) (fun u => ?_) fun u hu => ?_
  · unfold InFlight
    grind
  · grind
  · have hold := h.waiter u
    grind

/-- A thread outside the park has recorded no reference. -/
theorem Tear.waitRef_false (hp : ¬ IsParked (s.pc t)) : (s.waits.thr t).waitRef ≠ true :=
  fun ht => hp (h.waiter t ht)

/-- Moving such a thread adds no waiter. -/
theorem Tear.waiter_update {p : QueuePc} (hp : ¬ IsParked (s.pc t)) (u : Tid)
    (hu : (s.waits.thr u).waitRef = true) : IsParked (update s.pc t p u) := by
  have hut : u ≠ t := fun he => h.waitRef_false hp (he ▸ hu)
  rw [update_of_ne hut]
  exact h.waiter u hu

theorem Tear.callDeadline (hp : s.pc t = .entered op timeout inThread) :
    Tear (s.callDeadline t op timeout inThread) users := by
  refine h.move rfl rfl (fun _ => Iff.rfl) (fun _ _ => rfl) (by simp [hp])
    (by simp) fun ht => ?_
  exact absurd ht (h.waitRef_false (by simp [hp]))

theorem Tear.callUnparked (hp : s.pc t = .parked op timeout deadline) :
    Tear (s.callUnparked t op timeout deadline) users := by
  refine h.move rfl rfl (fun u => ?_)
    (fun u hu => congrArg _ (Waits.syncWaitDone_thr_of_ne s.waits hu)) (by simp [hp]) ?_ fun ht => ?_
  · show ((s.waits.syncWaitDone t).thr u).run = _ ↔ _
    rw [Waits.syncWaitDone, Waits.modW_thr]
    split <;> simp_all
  · split <;> simp
  · rw [show (s.callUnparked t op timeout deadline).waits.thr t = _ from
      Waits.syncWaitDone_thr_self ..] at ht
    cases ht

end

theorem kept_wakeOne (s : QueueSys) (i : Side) : Kept s (s.wakeOne i) := by
  have hlife := Waits.sameLife_wakeOne s.waits i
  unfold QueueSys.wakeOne
  cases hw : s.waits.wakeOne i with
  | mk o w =>
    rw [hw] at hlife
    cases o with
    | none => exact ⟨rfl, rfl, .refl _⟩
    | some t => exact ⟨rfl, rfl, hlife⟩

theorem kept_perform (s : QueueSys) (c : Caller) (op : QueueOp) : Kept s (s.perform c op).2 := by
  cases op with
  | send msg => exact { kept_wakeOne { s with
      q := s.q.put msg, accepted := s.accepted ++ [(s.call c, msg)] } .receive with }
  | receive => exact { kept_wakeOne { s with
      q := s.q.drop, delivered := s.delivered ++ [(s.call c, s.q.front)] } .send with }

section
variable (h : Tear s users)
include h

/-- The loop ends with a result, whatever it did to the queue. -/
theorem Tear.leave (hp : s.pc t = .loop op timeout deadline inThread) (hk : Kept s s') (ret : Err)
    (out : Bytes) : Tear (s'.setPc t (.leave op ret out)) users := by
  refine h.move hk.counts (by rw [← hk.pc]; rfl) (fun u => (hk.life u).1) (fun u _ => (hk.life u).2)
    (by simp [hp]) (by simp) fun ht => ?_
  rw [show (s'.setPc t (.leave op ret out)).waits = s'.waits from rfl, (hk.life t).2] at ht
  exact absurd ht (h.waitRef_false (by simp [hp]))

theorem Tear.callPark (hp : s.pc t = .loop op timeout deadline inThread) (ticks : UInt32) :
    Tear ((s.rerun t).callPark t op timeout deadline ticks) users := by
  refine h.move rfl rfl (fun u => ?_)
    (fun u hu => congrArg _ (Waits.syncWaitPark_thr_of_ne s.waits hu ..)) (by simp [hp]) (by simp)
    fun _ => trivial
  show ((s.waits.syncWaitPark t op.side ticks).thr u).run = _ ↔ _
  rw [Waits.syncWaitPark, Waits.modW_thr]
  split <;> simp_all

theorem Tear.callLoop (hp : s.pc t = .loop op timeout deadline inThread) :
    Tear (s.callLoop t op timeout deadline inThread) users := by
  refine callLoop_cases (P := (Tear · users)) s t op (fun ret _ _ => ?_) (fun _ => ?_)
    fun _ => h.callPark hp
  · exact h.leave hp (show Kept s (s.rerun t) from ⟨rfl, rfl, .refl _⟩) ret []
  · exact h.leave hp { kept_perform (s.rerun t) (.thread t) op with } _ _

/-! ## Taking and dropping references -/

/-- A call takes a reference of a queue that is not destroyed. -/
theorem Tear.add {p : QueuePc} (hidle : s.pc t = .idle)
    (hrun : (s.waits.thr t).run ≠ .deleted) (hd : s.q.obj.destroy = false)
    (hp : p ≠ .idle ∧ ¬ AtRelease p) :
    Tear ({ s.nextCall (.thread t) with q.obj.ref := s.q.obj.ref + 1 }.setPc t p) (insert t users) := by
  have hnot : t ∉ users := fun ht => ((h.mem_users t).mp ht).1 hidle
  have href := h.ref_eq
  have hdesc0 := h.desc_eq
  have hpool0 := h.pool_eq
  simp only [hd, Bool.false_eq_true, false_and, if_false] at href hdesc0 hpool0
  refine ⟨h.heap, fun u => ?_, ?_, h.waiter_update (by simp [hidle]), h.checked_nodup, fun u => ?_,
    ?_, ?_⟩
  · rw [mem_insert, h.mem_users]
    show _ ↔ update s.pc t p u ≠ .idle ∧ (s.waits.thr u).run ≠ .deleted
    rw [update_apply]
    unfold InFlight
    grind
  · rw [Finset.card_insert_of_notMem hnot]
    show _ = users.card + 1 + if s.q.obj.destroy then 0 else 1
    rw [hd]
    exact congrArg (· + 1) href
  · show u ∈ s.checked ↔ _ ∧ AtRelease (update s.pc t p u)
    rw [h.mem_checked, mem_insert, update_apply]
    grind
  · exact hdesc0.trans (if_neg fun hc => by cases hd.symm.trans hc.1).symm
  · exact hpool0.trans (if_neg fun hc => by cases hd.symm.trans hc.1).symm

theorem Tear.callBegin (hp : s.pc t = .idle)
    (hrun : (s.waits.thr t).Runnable) (href : s.q.obj.ref < 255) (timeout : UInt32)
    (inThread : Bool) : ∃ users', Tear (s.callBegin t op timeout inThread) users' := by
  cases hd : s.q.obj.destroy with
  | true =>
    have hobj : (s.nextCall (.thread t)).q.obj = s.q.obj := rfl
    unfold QueueSys.callBegin
    dsimp only
    rw [hobj, objAcquire, if_pos hd]
    exact ⟨users, h.keep ⟨rfl, rfl, .refl _⟩⟩
  | false =>
    rw [callBegin_of_alive hd, Nat.mod_eq_of_lt (by omega)]
    exact ⟨insert t users, h.add hp (by rw [hrun.1]; simp) hd (by simp)⟩

/-- One user leaves. If it was the last one of a destroyed queue it has made its pool check,
and it does not leave behind a single user that has. -/
theorem Tear.drop (ht : t ∈ users) (hobj : s'.q.obj = objDrop s.q.obj)
    (hdesc : s'.descFrees = s.descFrees + if s.q.obj.ref = 1 ∧ s.q.obj.destroy = true then 1 else 0)
    (hpool : s'.poolFrees = s.poolFrees) (hchk : s'.checked = s.checked.erase t)
    (hflight : ∀ u, InFlight s' u ↔ u ≠ t ∧ InFlight s u) (hpc : ∀ u ≠ t, s'.pc u = s.pc u)
    (hwait : ∀ u, (s'.waits.thr u).waitRef = true → u ≠ t ∧ (s.waits.thr u).waitRef = true)
    (hlast : s.q.obj.destroy = true → s.q.obj.ref = 1 → t ∈ s.checked)
    (hsafe : s.q.obj.destroy = true → ¬ s.LeavesChecked t) : Tear s' (users.erase t) := by
  have hcard : (users.erase t).card = users.card - 1 := Finset.card_erase_of_mem ht
  have hpos : 0 < users.card := card_pos.mpr ⟨t, ht⟩
  have hone : users.card ≤ 1 → users = {t} := fun hle => Finset.eq_singleton_iff_unique_mem.mpr
    ⟨ht, fun v hv => card_le_one.mp hle v hv t ht⟩
  have href := h.ref_eq
  refine ⟨by rw [hobj]; exact h.heap, fun u => ?_, ?_, fun u hu => ?_, ?_, fun u => ?_, ?_, ?_⟩
  · rw [mem_erase, h.mem_users, hflight]
  · rw [hobj]
    show s.q.obj.ref - 1 = (users.erase t).card + if s.q.obj.destroy then 0 else 1
    rw [hcard]
    omega
  · obtain ⟨hut, hu⟩ := hwait u hu
    rw [hpc u hut]
    exact h.waiter u hu
  · rw [hchk]
    exact h.checked_nodup.erase t
  · rw [hchk, h.checked_nodup.mem_erase_iff, h.mem_checked, mem_erase]
    constructor
    · rintro ⟨hut, hu, hr⟩
      rw [hpc u hut]
      exact ⟨⟨hut, hu⟩, hr⟩
    · rintro ⟨⟨hut, hu⟩, hr⟩
      rw [hpc u hut] at hr
      exact ⟨hut, hu, hr⟩
  · -- the descriptor goes with the last user
    rw [hdesc, h.desc_eq, hobj, if_neg (fun hc => Finset.ne_empty_of_mem ht hc.2)]
    have hiff : (s.q.obj.ref = 1 ∧ s.q.obj.destroy = true) ↔
        ((objDrop s.q.obj).destroy = true ∧ users.erase t = ∅) := by
      show _ ↔ s.q.obj.destroy = true ∧ _
      rw [← card_eq_zero, hcard, and_comm]
      refine and_congr_right fun hd => ?_
      rw [if_pos hd] at href
      omega
    simp only [hiff, zero_add]
  · -- the pool has gone with it, or stays for a call that will check
    rw [hpool, h.pool_eq, hobj, hchk]
    refine if_congr ?_ rfl rfl
    show _ ↔ s.q.obj.destroy = true ∧ _
    refine and_congr_right fun hd => ?_
    rw [if_pos hd] at href
    constructor
    · rintro ⟨hle, hall⟩
      refine ⟨by omega, fun u hu => ?_⟩
      rw [hone hle] at hu
      simp at hu
    · rintro ⟨hle, hall⟩
      rcases lt_or_ge 1 users.card with hlt | hge
      · -- two users, and the one that stays has made its check: excluded
        exfalso
        have hne : (users.erase t).Nonempty := card_pos.mp (by omega)
        obtain ⟨u, hu⟩ := hne
        have huc := (h.checked_nodup.mem_erase_iff).mp (hall u hu)
        exact hsafe hd ⟨by omega, u, huc.2, huc.1⟩
      · refine ⟨hge, fun u hu => ?_⟩
        rw [hone hge, Finset.mem_singleton] at hu
        subst hu
        exact hlast hd (by omega)

theorem Tear.ref_pos (ht : t ∈ users) : 0 < s.q.obj.ref := by
  have hpos : 0 < users.card := card_pos.mpr ⟨t, ht⟩
  rw [h.ref_eq]
  omega

end

theorem objRelease_eq (hheap : s.q.obj.heapOwned = true) (hpos : 0 < s.q.obj.ref) :
    s.objRelease = { s with
      q := { s.q with obj := objDrop s.q.obj }
      descFrees := s.descFrees + if s.q.obj.ref = 1 ∧ s.q.obj.destroy = true then 1 else 0 } := by
  unfold objRelease
  dsimp only
  have hiff : ((objDrop s.q.obj).ref = 0 ∧ (objDrop s.q.obj).destroy = true) ↔
      (s.q.obj.ref = 1 ∧ s.q.obj.destroy = true) := by
    show s.q.obj.ref - 1 = 0 ∧ _ ↔ _
    refine and_congr ?_ Iff.rfl
    omega
  by_cases hlast : s.q.obj.ref = 1 ∧ s.q.obj.destroy = true
  · rw [if_pos (hiff.mpr hlast), if_pos hlast, freeStorage]
    exact if_pos hheap
  · rw [if_neg (mt hiff.mp hlast), if_neg hlast]
    rfl

theorem Tear.callEnd {ret : Err} (h : Tear s users)
    (hp : s.pc t = .release op ret out) (hrun : (s.waits.thr t).Runnable)
    (hsafe : t ∈ s.checked → s.q.obj.destroy = true → ¬ s.LeavesChecked t) :
    Tear (s.callEnd t op ret out) (users.erase t) := by
  have halive : (s.waits.thr t).run ≠ .deleted := by rw [hrun.1]; simp
  have ht : t ∈ users := (h.mem_users t).mpr ⟨by rw [hp]; simp, halive⟩
  have hchecked : t ∈ s.checked := (h.mem_checked t).mpr ⟨ht, by rw [hp]; trivial⟩
  unfold QueueSys.callEnd
  rw [objRelease_eq h.heap (h.ref_pos ht)]
  refine h.drop ht rfl rfl rfl rfl (fun u => ?_) (fun u hu => update_of_ne hu ..) (fun u hu => ?_)
    (fun _ _ => hchecked) (hsafe hchecked)
  · show update s.pc t _ u ≠ .idle ∧ (s.waits.thr u).run ≠ .deleted ↔ _
    rw [update_apply]
    unfold InFlight
    grind
  · exact ⟨fun he => h.waitRef_false (by simp [hp]) (he ▸ hu), hu⟩

theorem Tear.deleteThread (h : Tear s users) (hrun : (s.waits.thr t).run ≠ .deleted)
    (href : (s.waits.thr t).waitRef = true)
    (hsafe : s.q.obj.destroy = true → s.q.obj.ref ≠ 1 ∧ ¬ s.LeavesChecked t) :
    Tear (s.deleteThread t) (users.erase t) := by
  have hparked := h.waiter t href
  have ht : t ∈ users := (h.mem_users t).mpr ⟨fun he => by rw [he] at hparked; exact hparked, hrun⟩
  have hnot : t ∉ s.checked := fun hm => by
    have hr := ((h.mem_checked t).mp hm).2
    revert hparked hr
    cases s.pc t <;> simp [IsParked, AtRelease]
  have he : s.deleteThread t = { s with
      waits := s.waits.delete t
      q := { s.q with obj := objDrop s.q.obj }
      descFrees := s.descFrees + if s.q.obj.ref = 1 ∧ s.q.obj.destroy = true then 1 else 0 } := by
    unfold QueueSys.deleteThread
    dsimp only
    rw [if_pos href, objRelease_eq (s := { s with waits := s.waits.delete t }) h.heap (h.ref_pos ht)]
  rw [he]
  refine h.drop ht rfl rfl rfl (erase_of_not_mem hnot).symm (fun u => ?_) (fun _ _ => rfl)
    (fun u hu => ?_) (fun hd hone => absurd hone (hsafe hd).1) (fun hd => (hsafe hd).2)
  · show (s.pc u ≠ .idle ∧ ((s.waits.delete t).thr u).run ≠ .deleted) ↔ _
    rw [Waits.delete, Waits.modW_thr]
    split <;> simp_all [InFlight, Waits.unlink]
  · change ((s.waits.delete t).thr u).waitRef = true at hu
    rw [Waits.delete, Waits.modW_thr] at hu
    split at hu
    · cases hu
    · exact ⟨‹_›, hu⟩

/-! ## The pool check and the destroy request -/

theorem Tear.callLeave {ret : Err} (h : Tear s users) (hp : s.pc t = .leave op ret out)
    (hrun : (s.waits.thr t).Runnable) : Tear (s.callLeave t op ret out) users := by
  have halive : (s.waits.thr t).run ≠ .deleted := by rw [hrun.1]; simp
  have ht : t ∈ users := (h.mem_users t).mpr ⟨by rw [hp]; simp, halive⟩
  have hnot : t ∉ s.checked := by simp [h.mem_checked, hp]
  have href := h.ref_eq
  have he : s.callLeave t op ret out = { s with
      pc := update s.pc t (.release op ret out)
      checked := s.checked ++ [t]
      poolFrees := s.poolFrees + if s.q.obj.ref = 1 ∧ s.q.obj.destroy = true then 1 else 0 } := by
    unfold QueueSys.callLeave releasePool
    by_cases hlast : s.q.obj.ref = 1 ∧ s.q.obj.destroy = true
    · rw [if_pos ⟨hlast.1, hlast.2, h.heap⟩, if_pos hlast]
      rfl
    · rw [if_neg fun hc => hlast ⟨hc.1, hc.2.1⟩, if_neg hlast]
      rfl
  rw [he]
  refine ⟨h.heap, fun u => ?_, h.ref_eq, h.waiter_update (by simp [hp]), ?_, fun u => ?_, h.desc_eq, ?_⟩
  · rw [h.mem_users]
    show _ ↔ update s.pc t _ u ≠ .idle ∧ _
    rw [update_apply]
    split <;> simp_all [InFlight]
  · exact h.checked_nodup.append (nodup_singleton t) (by simpa using hnot)
  · show u ∈ s.checked ++ [t] ↔ u ∈ users ∧ AtRelease (update s.pc t _ u)
    rw [mem_append, mem_singleton, h.mem_checked, update_apply]
    split <;> simp_all
  · have hiff : (s.q.obj.ref = 1 ∧ s.q.obj.destroy = true) ↔ (s.q.obj.destroy = true ∧
        users.card ≤ 1 ∧ ∀ u ∈ users, u ∈ s.checked ++ [t]) := by
      rw [and_comm]
      refine and_congr_right fun hd => ?_
      rw [if_pos hd] at href
      constructor
      · intro hone
        have hle : users.card ≤ 1 := by omega
        refine ⟨hle, fun u hu => ?_⟩
        rw [card_le_one.mp hle u hu t ht]
        exact mem_append_right _ (mem_singleton.mpr rfl)
      · rintro ⟨hle, -⟩
        have hpos : 0 < users.card := card_pos.mpr ⟨t, ht⟩
        omega
    have hzero : s.poolFrees = 0 := by rw [h.pool_eq, if_neg fun hc => hnot (hc.2.2 t ht)]
    show s.poolFrees + _ = _
    rw [hzero, zero_add]
    exact if_congr hiff rfl rfl

theorem kept_killWaiters (s : QueueSys) : Kept s s.killWaiters :=
  ⟨rfl, rfl, (Waits.sameLife_syncWakeAll s.waits Side.send _).trans
    (Waits.sameLife_syncWakeAll _ Side.receive _)⟩

/-- The destroy request: alone, the creator frees both blocks; otherwise the users do. -/
theorem Tear.requestDestroy (h : Tear s users) (hd : s.q.obj.destroy = false)
    (hsafe : ¬ (s.q.obj.ref = 2 ∧ s.checked ≠ [])) (hs' : s' = { s with
      q := { s.q with obj := { objDrop s.q.obj with destroy := true } }
      poolFrees := s.poolFrees + if s.q.obj.ref = 1 then 1 else 0
      descFrees := s.descFrees + if s.q.obj.ref = 1 then 1 else 0 }) : Tear s' users := by
  have href := h.ref_eq
  have hdesc := h.desc_eq
  have hpool := h.pool_eq
  simp only [hd, Bool.false_eq_true, false_and, if_false] at href hdesc hpool
  rw [hs']
  refine { h with ref_eq := ?_, desc_eq := ?_, pool_eq := ?_ }
  · show s.q.obj.ref - 1 = users.card + 0
    omega
  · show s.descFrees + _ = if true = true ∧ users = ∅ then 1 else 0
    rw [hdesc, zero_add]
    refine if_congr ?_ rfl rfl
    rw [← card_eq_zero]
    simp only [true_and]
    omega
  · show s.poolFrees + _ = if true = true ∧ users.card ≤ 1 ∧ ∀ t ∈ users, t ∈ s.checked then 1 else 0
    rw [hpool, zero_add]
    refine if_congr ?_ rfl rfl
    simp only [true_and]
    constructor
    · intro hone
      have hempty : users = ∅ := card_eq_zero.mp (by omega)
      subst hempty
      simp
    · rintro ⟨hle, hall⟩
      -- a single user that has made its check is excluded
      by_contra hne
      have hcard : users.card = 1 := by omega
      obtain ⟨t, ht⟩ := card_pos.mp (show 0 < users.card by omega)
      exact hsafe ⟨by omega, ne_nil_of_mem (hall t ht)⟩

theorem requestDestroy_eq (hheap : s.q.obj.heapOwned = true) (hpos : 0 < s.q.obj.ref) :
    s.requestDestroy = { s with
      q := { s.q with obj := { objDrop s.q.obj with destroy := true } }
      descFrees := s.descFrees + if s.q.obj.ref = 1 then 1 else 0 } := by
  unfold QueueSys.requestDestroy
  dsimp only
  by_cases hone : s.q.obj.ref = 1
  · have hzero : ¬ 0 < (objDrop s.q.obj).ref := show ¬ 0 < s.q.obj.ref - 1 by omega
    rw [if_neg hzero, if_pos hone, freeStorage]
    exact if_pos hheap
  · have hmore : 0 < (objDrop s.q.obj).ref := show 0 < s.q.obj.ref - 1 by omega
    rw [if_pos hmore, if_neg hone]
    rfl

theorem Tear.deleteCommon (h : Tear s users) (hd : s.q.obj.destroy = false)
    (hsafe : ¬ (s.q.obj.ref = 2 ∧ s.checked ≠ [])) : Tear (s.deleteCommon false).2 users := by
  have href := h.ref_eq
  simp only [hd, Bool.false_eq_true, if_false] at href
  unfold QueueSys.deleteCommon
  rw [if_neg (by rw [h.heap]; simp)]
  split
  · exact h
  dsimp only
  by_cases hone : s.q.obj.ref = 1
  · have halone : ¬ 1 < s.q.obj.ref := by omega
    rw [if_neg halone, if_pos ⟨hone, rfl⟩]
    refine h.requestDestroy hd hsafe ?_
    have hpos : 0 < s.q.obj.ref := by omega
    rw [@requestDestroy_eq { s with poolFrees := s.poolFrees + 1 } h.heap hpos, if_pos hone]
  have hmore : 1 < s.q.obj.ref := by omega
  have hkill : Tear s.killWaiters users := h.keep (kept_killWaiters s)
  have hne : ¬ s.killWaiters.q.obj.ref = 1 := hone
  rw [if_pos hmore, if_neg fun hc => hne hc.1]
  refine hkill.requestDestroy hd hsafe ?_
  rw [requestDestroy_eq hkill.heap (show 0 < s.q.obj.ref by omega), if_neg hne]
  rfl

/-! ## Runs -/

theorem Tear.begin (h : Tear s users) (href : s.q.obj.ref < 255)
    (hs : s.begin t op timeout inThread = some s') : ∃ users', Tear s' users' := by
  obtain ⟨hg, rfl⟩ := ite_some_none_eq_some.mp hs
  exact h.callBegin hg.1 hg.2.1 href timeout inThread

theorem Tear.advance (h : Tear s users)
    (hsafe : t ∈ s.checked → s.q.obj.destroy = true → ¬ s.LeavesChecked t)
    (hs : s.advance t = some s') : ∃ users', Tear s' users' := by
  obtain ⟨hrun, hs⟩ := ite_none_right_eq_some.mp hs
  cases hp : s.pc t <;> rw [hp] at hs <;> cases hs
  case entered => exact ⟨users, h.callDeadline hp⟩
  case loop => exact ⟨users, h.callLoop hp⟩
  case parked => exact ⟨users, h.callUnparked hp⟩
  case leave => exact ⟨users, h.callLeave hp hrun⟩
  case release => exact ⟨_, h.callEnd hp hrun hsafe⟩

theorem Tear.step {l : Label} (h : Tear s users) (hsafe : TeardownSafe s l)
    (hs : step s l = some s') : ∃ users', Tear s' users' := by
  cases l with
  | send | receive => exact h.begin hsafe.2 hs
  | cs => exact h.advance hsafe.2 hs
  | sendIsr | receiveIsr => exact hsafe.1.elim
  | tick =>
    cases hs
    exact ⟨users, h.keep ⟨rfl, rfl, Waits.sameLife_tickDecrement _⟩⟩
  | suspend t =>
    cases hs
    exact ⟨users, h.keep ⟨rfl, rfl, Waits.sameLife_suspend _ t⟩⟩
  | resume t =>
    cases hs
    exact ⟨users, h.keep ⟨rfl, rfl, Waits.sameLife_resume _ t⟩⟩
  | deleteThread t =>
    obtain ⟨hrun, ⟨⟩⟩ := ite_none_left_eq_some.mp hs
    exact ⟨_, h.deleteThread hrun hsafe.1 hsafe.2⟩
  | enableKill =>
    cases hs
    exact ⟨users, h.keep ⟨rfl, rfl, .refl _⟩⟩
  | delete isStatic =>
    obtain ⟨hlive, rfl⟩ := ite_some_none_eq_some.mp hs
    have hheap : isStatic = false := hsafe.1
    subst hheap
    exact ⟨users, h.deleteCommon hlive.1 hsafe.2⟩

end Steps

theorem tear_init {msgSize depth : Nat} {pool : Nat → UInt8} {s : QueueSys}
    (h : queueCreate msgSize depth pool true = some s) : Tear s ∅ := by
  obtain ⟨-, ⟨⟩⟩ := ite_none_left_eq_some.mp h
  refine ⟨rfl, fun t => ?_, rfl, fun t ht => ?_, nodup_nil, fun t => ?_, rfl, rfl⟩
  · simp [InFlight]
  · cases ht
  · simp

theorem tear_isInvariant (msgSize depth : Nat) (pool : Nat → UInt8) :
    ((queue msgSize depth pool true).restrict TeardownSafe).IsInvariant
      fun s => ∃ users, Tear s users where
  init s hs := ⟨∅, tear_init hs⟩
  step s l s' := by
    rintro ⟨users, h⟩ ⟨hsafe, hs⟩
    exact h.step hsafe hs

/-! ## The property -/

theorem tornDown_of_reachable {msgSize depth : Nat} {pool : Nat → UInt8} {s : QueueSys}
    (h : ((queue msgSize depth pool true).restrict TeardownSafe).Reachable s) : TornDown s := by
  obtain ⟨users, hT⟩ := (tear_isInvariant msgSize depth pool).holds h
  exact hT.tornDown

/-- Two receivers wait when the queue is deleted; one is deleted, the other returns and frees
both blocks. -/
theorem tornDown_of_reachable_killed :
    ∃ s, ((queue 1 1 (fun _ => 0) true).restrict TeardownSafe).Reachable s ∧
      s.q.obj.destroy = true ∧ s.returns.map Return.ret = [.dead] ∧ s.descFrees = 1 ∧
      s.poolFrees = 1 ∧ TornDown s := by
  obtain ⟨s, hr, hd, hret, hdesc, hpool⟩ := LTS.Reachable.of_create
    (queueCreate 1 1 (fun _ => 0) true) step TeardownSafe
    [.receive 0 waitForever true, .cs 0, .cs 0, .receive 1 waitForever true, .cs 1, .cs 1,
      .enableKill, .delete false, .deleteThread 0, .cs 1, .cs 1, .cs 1, .cs 1]
    (fun s => s.q.obj.destroy ∧ s.returns.map Return.ret = [.dead] ∧ s.descFrees = 1 ∧
      s.poolFrees = 1)
    (by decide +kernel)
  exact ⟨s, hr, hd, hret, hdesc, hpool, tornDown_of_reachable hr⟩

/-- A freed descriptor without a freed pool is a leak. -/
theorem not_tornDown {s : QueueSys} (hd : s.q.obj.destroy = true) (hdesc : s.descFrees = 1)
    (hpool : s.poolFrees = 0) : ¬ TornDown s := by
  intro h
  have := (h.freed hd (h.desc_unused (by omega))).2
  omega

/-- The only waiter is deleted after the destroy request: the descriptor is freed, the pool is
not. -/
theorem tornDown_fails_after_waiter_delete :
    ∃ s, ((queue 1 1 (fun _ => 0) true).restrict TeardownStep).Reachable s ∧ ¬ TornDown s := by
  obtain ⟨s, hr, hp⟩ := LTS.Reachable.of_create
    (queueCreate 1 1 (fun _ => 0) true) step TeardownStep
    [.receive 0 waitForever true, .cs 0, .cs 0, .enableKill, .delete false, .deleteThread 0]
    (fun s => s.q.obj.destroy ∧ s.descFrees = 1 ∧ s.poolFrees = 0)
    (by decide +kernel)
  exact ⟨s, hr, not_tornDown hp.1 hp.2.1 hp.2.2⟩

end QueueSys

end MiniTree.Os
