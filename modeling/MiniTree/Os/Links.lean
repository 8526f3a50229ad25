import Mathlib.Data.Set.Insert
import MiniTree.Os.Schedule

/-!
# Where a thread's list node is linked

One intrusive node serves the ready levels, the DL list, the wheel slots and the
corpse queue. `home` computes from the TCB alone the list its node belongs on;
`Linked c ∅ s` says that every node is linked exactly there, and that the ready
bitmap agrees with the levels.

Between `mini_os_list_remove` and the re-insert a thread is linked nowhere while
its fields are rewritten; `Linked c X s` allows that for the threads in `X`. Every
scheduler function is a detach, which puts its thread into `X`, followed by an
attach, which takes it out again:

* detach: `removeThreadFromReadyRunningList` (`Linked.remove`), `listRemove` of a
  node that is not on a ready level (`Linked.unlink`);
* attach: `addThreadToReadyRunningList` (`Linked.add`), `wheelInsert`
  (`Linked.wheelInsert`), `listTail` to the corpse queue (`Linked.defunct`), or
  nothing for a thread that belongs on no list (`Linked.settle`).

**Results.** `Linked.relink`, `Linked.priorityApply`, `Linked.deadlineApply`,
`Linked.dlReplenishDue`, `Linked.dlTickDecrement`: the functions of `schedule.c`
keep every node on its home list. Only the last has a condition: a thread that is
throttled must not sit in the wheel or on the corpse queue already.
-/

namespace MiniTree.Os

open Core.Ring Core.Bits Function List Set
open Sched (modT listTail listInsert setBit)

/-- The list a thread's node belongs on. -/
def home (c : Cfg) (x : Tcb) : Option ListHead :=
  match x.state with
  | .ready | .running => if dlScheduled c x then some .dl else some (.ready x.priority)
  | .blocked => if x.wheelSlot < c.tickWheel then some (.wheel x.wheelSlot) else none
  | .terminated => some .defunct
  | _ => none

/-- `home` reads five fields. -/
theorem home_congr {c : Cfg} {x y : Tcb} (hs : y.state = x.state) (hp : y.priority = x.priority)
    (hw : y.wheelSlot = x.wheelSlot) (hc : y.schedPolicy = x.schedPolicy)
    (hd : y.dlDeadlineInherit = x.dlDeadlineInherit) : home c y = home c x := by
  unfold home dlScheduled
  rw [hs, hp, hw, hc, hd]

/-- Off the ready lists, `home` reads two. -/
theorem home_congr_idle {c : Cfg} {x y : Tcb} (hr : ¬ x.Runnable) (hs : y.state = x.state)
    (hw : y.wheelSlot = x.wheelSlot) : home c y = home c x := by
  unfold home
  rw [hs, hw]
  split <;> simp_all [Tcb.Runnable]

/-- `y` is `x` with other DL accounting: budget, own deadline, job flags, counters. -/
structure Accounted (x y : Tcb) : Prop where
  state : y.state = x.state
  priority : y.priority = x.priority
  base : y.basePriority = x.basePriority
  slot : y.wheelSlot = x.wheelSlot
  resume : y.resumeTime = x.resumeTime
  policy : y.schedPolicy = x.schedPolicy
  inherit : y.dlDeadlineInherit = x.dlDeadlineInherit

section
variable (now : BitVec 32) (s : Sched) (x : Tcb)

theorem accounted_mk (b f m n l : Nat) (d : BitVec 32) (v w : Bool) : Accounted x { x with
      dlBudget := b, dlBudgetFrac := f, dlDeadlineTime := d, dlThrottled := v, dlJobDone := w,
      dlMissCount := m, dlFinishCount := n, dlThrottleCount := l } :=
  ⟨rfl, rfl, rfl, rfl, rfl, rfl, rfl⟩

theorem Accounted.trans {x y z : Tcb} (h : Accounted x y) (g : Accounted y z) : Accounted x z :=
  ⟨g.state.trans h.state, g.priority.trans h.priority, g.base.trans h.base, g.slot.trans h.slot,
    g.resume.trans h.resume, g.policy.trans h.policy, g.inherit.trans h.inherit⟩

theorem Accounted.home {c : Cfg} {x y : Tcb} (h : Accounted x y) : home c y = home c x :=
  home_congr h.state h.priority h.slot h.policy h.inherit

theorem dlNewJob_accounted : Accounted x (dlNewJob now x) := accounted_mk ..

theorem dlReportMiss_accounted : Accounted x (dlReportMiss x) := accounted_mk ..

theorem dlNextJob_accounted : Accounted x (dlNextJob now x) := by
  unfold dlNextJob
  split
  · exact dlNewJob_accounted now x
  · exact (dlReportMiss_accounted x).trans (dlNewJob_accounted now _)

theorem dlSpend_accounted : Accounted x (dlSpend s x) := accounted_mk ..

theorem dlMarkThrottled_accounted : Accounted x (dlMarkThrottled x) := accounted_mk ..

end

/-- Every node is linked on its home list and nowhere else, once; the nodes of the
threads in `X` are linked nowhere. -/
structure Linked (c : Cfg) (X : Set Tid) (s : Sched) : Prop where
  nodup : ∀ h, (s.lists h).Nodup
  bitmap : ∀ p, s.gPriority.getLsbD p = true ↔ s.lists (.ready p) ≠ []
  off : ∀ t ∈ X, ∀ h, t ∉ s.lists h
  mem_iff : ∀ h t, t ∉ X → (t ∈ s.lists h ↔ home c (s.thr t) = some h)
  prio_lt : ∀ t, (s.thr t).priority < c.priority
  slot_blocked : ∀ t, t ∉ X → (s.thr t).wheelSlot < c.tickWheel → (s.thr t).state = .blocked

/-! ## Field lemmas -/

section fields

variable (s : Sched) (t u : Tid) (f : Tcb → Tcb) (h : ListHead) (p : Nat)

@[simp] theorem modT_lists : (s.modT t f).lists = s.lists := rfl
@[simp] theorem modT_current : (s.modT t f).current = s.current := rfl
@[simp] theorem modT_thr_self : (s.modT t f).thr t = f (s.thr t) := by simp [modT]

theorem modT_thr_ne {s : Sched} {t u : Tid} (f : Tcb → Tcb) (hu : u ≠ t) :
    (s.modT t f).thr u = s.thr u := by simp [modT, hu]

theorem modT_thr : (s.modT t f).thr u = if u = t then f (s.thr t) else s.thr u := by
  simp [modT, update_apply]

@[simp] theorem listTail_thr : (s.listTail t h).thr = s.thr := rfl
@[simp] theorem listTail_gPriority : (s.listTail t h).gPriority = s.gPriority := rfl
@[simp] theorem listRemove_thr : (s.listRemove t).thr = s.thr := rfl
@[simp] theorem listRemove_gPriority : (s.listRemove t).gPriority = s.gPriority := rfl
@[simp] theorem listRemove_lists : (s.listRemove t).lists h = (s.lists h).erase t := rfl
@[simp] theorem setThisBw_thr : (s.setThisBw p).thr = s.thr := rfl
@[simp] theorem setThisBw_lists : (s.setThisBw p).lists = s.lists := rfl
@[simp] theorem setThisBw_gPriority : (s.setThisBw p).gPriority = s.gPriority := rfl
@[simp] theorem dlListInsert_thr : (dlListInsert s t).thr = s.thr := rfl
@[simp] theorem dlListInsert_gPriority : (dlListInsert s t).gPriority = s.gPriority := rfl

end fields

/-! ## Detaching -/

section detach

variable {c : Cfg} {X : Set Tid} {s s' : Sched} {t : Tid} {x : Tcb}

/-- `Linked` reads three fields. -/
theorem Linked.congr (h : Linked c X s) (hl : s'.lists = s.lists) (ht : s'.thr = s.thr)
    (hg : s'.gPriority = s.gPriority) : Linked c X s' where
  nodup := by rw [hl]; exact h.nodup
  bitmap := by rw [hl, hg]; exact h.bitmap
  off := by rw [hl]; exact h.off
  mem_iff := by rw [hl, ht]; exact h.mem_iff
  prio_lt := by rw [ht]; exact h.prio_lt
  slot_blocked := by rw [ht]; exact h.slot_blocked

theorem home_runnable (h : x.Runnable) :
    home c x = if dlScheduled c x then some .dl else some (.ready x.priority) := by
  rcases h with h | h <;> simp [home, h]

theorem home_blocked (h : x.state = .blocked) :
    home c x = if x.wheelSlot < c.tickWheel then some (.wheel x.wheelSlot) else none := by
  simp [home, h]

theorem home_eq_wheel {slot : Nat} (h : home c x = some (.wheel slot)) :
    x.state = .blocked ∧ x.wheelSlot = slot := by
  unfold home at h
  split at h <;> grind

theorem home_eq_defunct (h : home c x = some .defunct) : x.state = .terminated := by
  unfold home at h
  split at h <;> grind

theorem home_eq_ready {p : Nat} (h : home c x = some (.ready p)) :
    x.Runnable ∧ dlScheduled c x = false ∧ x.priority = p := by
  unfold home at h
  split at h <;> grind [Tcb.Runnable]

section
variable (h : Linked c X s)
include h

/-- The part of a detach that does not depend on the list. -/
theorem Linked.erase (ht : t ∉ X) (hl : ∀ hd, s'.lists hd = (s.lists hd).erase t)
    (hthr : s'.thr = s.thr) (hb : ∀ p, s'.gPriority.getLsbD p = true ↔ s'.lists (.ready p) ≠ []) :
    Linked c (insert t X) s' where
  nodup hd := by
    rw [hl]
    exact (h.nodup hd).erase t
  bitmap := hb
  off u hu hd := by
    rw [hl]
    rcases hu with rfl | hu
    · exact (h.nodup hd).not_mem_erase
    · exact fun hm => h.off u hu hd (mem_of_mem_erase hm)
  mem_iff hd u hu := by
    rw [mem_insert_iff, not_or] at hu
    rw [hl, hthr, mem_erase_of_ne hu.1]
    exact h.mem_iff hd u hu.2
  prio_lt := by
    rw [hthr]
    exact h.prio_lt
  slot_blocked u hu := by
    rw [mem_insert_iff, not_or] at hu
    rw [hthr]
    exact h.slot_blocked u hu.2

/-- A node that is not on a ready level can be taken out without touching the
bitmap. -/
theorem Linked.unlink (ht : t ∉ X)
    (hp : ∀ p, home c (s.thr t) ≠ some (.ready p)) : Linked c (insert t X) (s.listRemove t) := by
  refine h.erase ht (fun _ => rfl) rfl fun p => ?_
  have hn : t ∉ s.lists (.ready p) := fun hm => hp p ((h.mem_iff _ _ ht).mp hm)
  rw [listRemove_gPriority, listRemove_lists, erase_of_not_mem hn]
  exact h.bitmap p

/-- A thread without a home list is linked nowhere. -/
theorem Linked.detached (ht : t ∉ X) (hn : home c (s.thr t) = none) : Linked c (insert t X) s := by
  have hoff : ∀ hd, t ∉ s.lists hd := fun hd hm => by
    rw [h.mem_iff hd t ht, hn] at hm
    cases hm
  exact h.erase ht (fun hd => (erase_of_not_mem (hoff hd)).symm) rfl h.bitmap

/-- Taking a thread off its ready level clears the bit with the last node. -/
theorem Linked.unlinkReady (ht : t ∉ X) {p : Nat} (hp : home c (s.thr t) = some (.ready p)) :
    Linked c (insert t X) (if (s.listRemove t).lists (.ready p) = [] then
      (s.listRemove t).clearBit p else s.listRemove t) := by
  have hpp : (s.thr t).priority = p := (home_eq_ready hp).2.2
  have h32 : p < 32 := hpp ▸ lt_of_lt_of_le (h.prio_lt t) c.priority_le
  have hm : t ∈ s.lists (.ready p) := (h.mem_iff _ _ ht).mpr hp
  have hq : ∀ q, q ≠ p → t ∉ s.lists (.ready q) := fun q hq hm' => by
    have := (h.mem_iff _ _ ht).mp hm'
    rw [hp] at this
    exact hq (by simpa using this.symm)
  split
  · rename_i he
    rw [listRemove_lists] at he
    refine h.erase ht (fun _ => rfl) rfl fun q => ?_
    rw [Sched.clearBit, getLsbD_clearBit h32, listRemove_gPriority, h.bitmap]
    simp only [listRemove_lists]
    by_cases hqp : q = p
    · subst hqp
      simp [he]
    · simp only [erase_of_not_mem (hq q hqp), hqp, ne_eq, not_false_eq_true, and_true]
  · rename_i he
    rw [listRemove_lists] at he
    refine h.erase ht (fun _ => rfl) rfl fun q => ?_
    rw [listRemove_gPriority, h.bitmap, listRemove_lists]
    by_cases hqp : q = p
    · subst hqp
      simp only [ne_eq, he, not_false_eq_true, iff_true]
      exact ne_nil_of_mem hm
    · rw [erase_of_not_mem (hq q hqp)]

end

theorem remove_thr : (removeThreadFromReadyRunningList c s t).thr = s.thr := by
  unfold removeThreadFromReadyRunningList
  simp only
  split_ifs <;> rfl

theorem remove_of_not_runnable (h : ¬ (s.thr t).Runnable) :
    removeThreadFromReadyRunningList c s t = s := by simp [removeThreadFromReadyRunningList, h]

theorem Linked.remove (h : Linked c X s) (ht : t ∉ X) (hr : (s.thr t).Runnable) :
    Linked c (insert t X) (removeThreadFromReadyRunningList c s t) := by
  have hp := h.prio_lt t
  have hh := home_runnable (c := c) hr
  unfold removeThreadFromReadyRunningList
  simp only [hr, not_true_eq_false, false_or, not_le.mpr hp, if_false]
  by_cases hd : dlScheduled c (s.thr t) = true
  · rw [if_pos hd] at hh ⊢
    have hu := h.unlink ht (by rw [hh]; simp)
    split
    · exact hu.congr rfl rfl rfl
    · exact hu
  · rw [if_neg hd] at hh ⊢
    exact h.unlinkReady ht hh

end detach

/-! ## Attaching -/

section attach

variable {c : Cfg} {X : Set Tid} {s s' : Sched} {t : Tid} {f : Tcb → Tcb}

/-- A change of fields that leaves the home list of a linked thread alone. -/
theorem Linked.change (h : Linked c X s) (hp : (f (s.thr t)).priority < c.priority)
    (hh : t ∉ X → home c (f (s.thr t)) = home c (s.thr t))
    (hs : t ∉ X → (f (s.thr t)).wheelSlot < c.tickWheel → (f (s.thr t)).state = .blocked) :
    Linked c X (s.modT t f) where
  nodup := h.nodup
  bitmap := h.bitmap
  off := h.off
  mem_iff hd u hu := by
    rw [modT_lists, modT_thr]
    split
    · rename_i hut
      subst hut
      rw [hh hu]
      exact h.mem_iff hd u hu
    · exact h.mem_iff hd u hu
  prio_lt u := by
    rw [modT_thr]
    split
    · exact hp
    · exact h.prio_lt u
  slot_blocked u hu := by
    rw [modT_thr]
    split
    · rename_i hut
      exact hs (hut ▸ hu)
    · exact h.slot_blocked u hu

/-- A detached thread's fields may change freely, its priority within range. -/
theorem Linked.modT_off (h : Linked c X s) (ht : t ∈ X)
    (hp : (f (s.thr t)).priority < c.priority) : Linked c X (s.modT t f) :=
  h.change hp (absurd ht) (absurd ht)

/-- The general attach: `t` joins the list `d` it belongs on, every other list and
TCB stays, and the bitmap follows. -/
theorem Linked.attach {r : Sched} (h : Linked c (insert t X) s) (ht : t ∉ X) {d : ListHead}
    (hthr : r.thr = s.thr)
    (hl : ∀ g, g ≠ d → r.lists g = s.lists g) (hp : (r.lists d).Perm (t :: s.lists d))
    (hg : ∀ p, r.gPriority.getLsbD p = true ↔ s.gPriority.getLsbD p = true ∨ d = .ready p)
    (hh : home c (s.thr t) = some d)
    (hs : (s.thr t).wheelSlot < c.tickWheel → (s.thr t).state = .blocked) : Linked c X r := by
  have hoff := h.off t (mem_insert t X)
  have hmem : ∀ g u, u ∈ r.lists g ↔ (g = d ∧ u = t) ∨ u ∈ s.lists g := by
    intro g u
    by_cases hgd : g = d
    · subst hgd
      rw [hp.mem_iff, mem_cons]
      simp
    · rw [hl g hgd]
      simp [hgd]
  refine ⟨fun g => ?_, fun p => ?_, fun u hu g hm => ?_, fun g u hu => ?_, ?_, fun u hu => ?_⟩
  · by_cases hgd : g = d
    · subst hgd
      rw [hp.nodup_iff]
      exact nodup_cons.mpr ⟨hoff g, h.nodup g⟩
    · rw [hl g hgd]
      exact h.nodup g
  · rw [hg, h.bitmap]
    by_cases hpd : d = .ready p
    · subst hpd
      have : r.lists (.ready p) ≠ [] := ne_nil_of_mem ((hmem _ _).mpr (.inl ⟨rfl, rfl⟩))
      simp [this]
    · rw [hl _ (fun e => hpd e.symm)]
      simp [hpd]
  · rcases (hmem g u).mp hm with ⟨-, rfl⟩ | hm
    · exact ht hu
    · exact h.off u (mem_insert_of_mem t hu) g hm
  · rw [hthr, hmem]
    by_cases hut : u = t
    · subst hut
      simp only [and_true, hoff g, or_false, hh, Option.some.injEq]
      exact eq_comm
    · simp only [hut, and_false, false_or]
      exact h.mem_iff g u (by simp [hut, hu])
  · rw [hthr]
    exact h.prio_lt
  · rw [hthr]
    by_cases hut : u = t
    · exact hut ▸ hs
    · exact h.slot_blocked u (by simp [hut, hu])

/-- A thread that belongs on no list need not be attached. -/
theorem Linked.settle (h : Linked c (insert t X) s) (ht : t ∉ X) (hh : home c (s.thr t) = none)
    (hs : (s.thr t).wheelSlot < c.tickWheel → (s.thr t).state = .blocked) : Linked c X s where
  nodup := h.nodup
  bitmap := h.bitmap
  off u hu := h.off u (mem_insert_of_mem t hu)
  mem_iff hd u hu := by
    by_cases hut : u = t
    · subst hut
      simp [h.off u (mem_insert u X) hd, hh]
    · exact h.mem_iff hd u (by simp [hut, hu])
  prio_lt := h.prio_lt
  slot_blocked u hu := by
    by_cases hut : u = t
    · exact hut ▸ hs
    · exact h.slot_blocked u (by simp [hut, hu])

section
variable (s : Sched) (t : Tid) (h : ListHead)

theorem listTail_perm : ((s.listTail t h).lists h).Perm (t :: s.lists h) := by
  simp only [listTail, update_self]
  exact perm_append_singleton t _

theorem listTail_ne {h g : ListHead} (hg : g ≠ h) : (s.listTail t h).lists g = s.lists g := by
  simp [listTail, hg]

theorem listInsert_perm (stop : Tid → Bool) :
    ((s.listInsert t h stop).lists h).Perm (t :: s.lists h) := by
  simp only [listInsert, update_self]
  exact insertBefore_perm stop t _

theorem listInsert_ne {h g : ListHead} (stop : Tid → Bool) (hg : g ≠ h) :
    (s.listInsert t h stop).lists g = s.lists g := by simp [listInsert, hg]

end

theorem wheelSlot_lt (c : Cfg) (n : Nat) : n % 2 ^ 32 % c.tickWheel < c.tickWheel :=
  Nat.mod_lt _ c.wheel_pos

section
variable (h : Linked c (insert t X) s)
include h

theorem Linked.wheelInsert (ht : t ∉ X) {ticks : Nat}
    (hn : ticks ≠ 0) : Linked c X (wheelInsert c s t ticks) := by
  have hlt := wheelSlot_lt c (s.currentSlot + ticks)
  unfold Os.wheelInsert
  simp only [hn, if_false]
  refine Linked.attach
    (h.modT_off (mem_insert t X) (h.prio_lt t)) ht rfl (fun g hg => listTail_ne _ _ hg)
    (listTail_perm _ _ _) (by simp) ?_ (by simp)
  rw [modT_thr_self, home_blocked rfl]
  exact if_pos hlt

theorem Linked.dlInsert (ht : t ∉ X) (hh : home c (s.thr t) = some .dl)
    (hs : (s.thr t).wheelSlot < c.tickWheel → (s.thr t).state = .blocked) :
    Linked c X (dlListInsert s t) :=
  h.attach ht rfl (fun _ hg => listInsert_ne _ _ _ hg) (listInsert_perm _ _ _ _) (by simp) hh hs

theorem Linked.defunct (ht : t ∉ X) (hw : c.tickWheel ≤ (s.thr t).wheelSlot) :
    Linked c X ((s.modT t fun x => { x with state := .terminated }).listTail t .defunct) := by
  refine Linked.attach (h.modT_off (mem_insert t X) (h.prio_lt t)) ht rfl
    (fun g hg => listTail_ne _ _ hg) (listTail_perm _ _ _) (by simp) ?_ ?_
  · simp [home]
  · simp only [modT_thr_self]
    omega

end

/-- The TCB of a thread that the ready structure accepted. -/
def readied (c : Cfg) (now : BitVec 32) (x : Tcb) : Tcb :=
  { (if dlScheduled c x ∧ x.schedPolicy = .deadline ∧ ¬ (now - x.dlDeadlineTime).slt 0
      then dlNewJob now x else x) with state := .ready }

theorem readied_due {now : BitVec 32} {x : Tcb} (h : dlScheduled c x ∧ x.schedPolicy = .deadline ∧
    ¬ (now - x.dlDeadlineTime).slt 0) : readied c now x = { dlNewJob now x with state := .ready } := by
  rw [readied, if_pos h]

theorem readied_plain {now : BitVec 32} {x : Tcb} (h : ¬ (dlScheduled c x ∧
    x.schedPolicy = .deadline ∧ ¬ (now - x.dlDeadlineTime).slt 0)) :
    readied c now x = { x with state := .ready } := by rw [readied, if_neg h]

@[simp] theorem readied_state (now : BitVec 32) (x : Tcb) : (readied c now x).state = .ready := rfl

@[simp] theorem readied_rank (c : Cfg) (now : BitVec 32) (x : Tcb) :
    (readied c now x).priority = x.priority ∧ (readied c now x).basePriority = x.basePriority ∧
    (readied c now x).wheelSlot = x.wheelSlot ∧ (readied c now x).resumeTime = x.resumeTime := by
  simp only [readied]
  split <;> exact ⟨rfl, rfl, rfl, rfl⟩

theorem add_of_runnable (h : (s.thr t).Runnable) : addThreadToReadyRunningList c s t = s := by
  simp [addThreadToReadyRunningList, h]

theorem add_thr (hr : ¬ (s.thr t).Runnable) (hp : (s.thr t).priority < c.priority) :
    (addThreadToReadyRunningList c s t).thr =
      update s.thr t (readied c s.globalTick (s.thr t)) := by
  unfold addThreadToReadyRunningList
  simp only [hr, false_or, not_le.mpr hp, if_false]
  by_cases hd : dlScheduled c (s.thr t) = true
  · simp only [hd, if_true]
    by_cases hj : (s.thr t).schedPolicy = .deadline ∧
        ¬ (s.globalTick - (s.thr t).dlDeadlineTime).slt 0 = true
    · rw [readied_due ⟨hd, hj⟩, if_pos hj, if_pos hj.1]
      simp [modT, dlNewJob]
    · rw [readied_plain fun h => hj h.2, if_neg hj]
      split <;> rfl
  · rw [readied_plain fun h => hd h.1, if_neg hd]
    split <;> rfl

/-- A detached thread that is neither READY nor RUNNING nor in the wheel is put on its
ready structure. -/
theorem Linked.add (h : Linked c (insert t X) s) (ht : t ∉ X) (hr : ¬ (s.thr t).Runnable)
    (hw : c.tickWheel ≤ (s.thr t).wheelSlot) : Linked c X (addThreadToReadyRunningList c s t) := by
  have hp := h.prio_lt t
  have hin := mem_insert t X
  have h32 : (s.thr t).priority < 32 := hp.trans_le c.priority_le
  have hd0 := h.modT_off hin (f := fun x => { x with state := .ready }) hp
  unfold addThreadToReadyRunningList
  simp only [hr, false_or, not_le.mpr hp, if_false]
  by_cases hd : dlScheduled c (s.thr t) = true
  · -- the DL class: a new job may start, then the node joins the DL list
    simp only [hd, if_true]
    have hd1 : Linked c X (dlListInsert (if (s.thr t).schedPolicy = .deadline ∧
          ¬ (s.globalTick - (s.thr t).dlDeadlineTime).slt 0 = true
        then (s.modT t fun x => { x with state := .ready }).modT t (dlNewJob s.globalTick)
        else s.modT t fun x => { x with state := .ready }) t) := by
      split
      · refine (hd0.modT_off hin (by simpa [dlNewJob] using hp)).dlInsert ht ?_ ?_
        · rw [modT_thr_self, modT_thr_self, home_runnable (.inl rfl)]
          exact if_pos hd
        · simp only [modT_thr_self, dlNewJob]
          omega
      · refine hd0.dlInsert ht ?_ ?_
        · rw [modT_thr_self, home_runnable (.inl rfl)]
          exact if_pos hd
        · simp only [modT_thr_self]
          omega
    split
    · exact hd1.congr rfl rfl rfl
    · exact hd1
  · have hh : home c ((s.modT t fun x => { x with state := .ready }).thr t) =
        some (.ready (s.thr t).priority) := by
      rw [modT_thr_self, home_runnable (.inl rfl)]
      exact if_neg hd
    have hs : ((s.modT t fun x => { x with state := .ready }).thr t).wheelSlot < c.tickWheel →
        ((s.modT t fun x => { x with state := .ready }).thr t).state = .blocked := by
      simp only [modT_thr_self]
      omega
    have hg : ∀ p, ((s.gPriority ||| (1#32 <<< (s.thr t).priority)).getLsbD p = true) ↔
        s.gPriority.getLsbD p = true ∨ ListHead.ready (s.thr t).priority = .ready p := by
      intro p
      rw [getLsbD_setBit h32, ListHead.ready.injEq]
      exact or_congr_right eq_comm
    rw [if_neg hd]
    split
    · exact hd0.attach ht rfl
        (fun g hg => listInsert_ne _ _ _ hg) (listInsert_perm _ _ _ _) hg hh hs
    · exact hd0.attach ht rfl
        (fun g hg => listTail_ne _ _ hg) (listTail_perm _ _ _) hg hh hs

end attach

/-! ## Functions that keep every node on its home list -/

section keep

variable {c : Cfg} {X : Set Tid} {s : Sched} {t : Tid} {f : Tcb → Tcb}

theorem Linked.modT (h : Linked c X s) (hh : home c (f (s.thr t)) = home c (s.thr t))
    (hp : (f (s.thr t)).priority < c.priority) (hs : (f (s.thr t)).wheelSlot = (s.thr t).wheelSlot)
    (hb : (s.thr t).state = .blocked → (f (s.thr t)).state = .blocked) : Linked c X (s.modT t f) :=
  h.change hp (fun _ => hh) fun ht hlt => hb (h.slot_blocked t ht (hs ▸ hlt))

theorem Linked.slot_of_not_blocked (h : Linked c X s) (ht : t ∉ X)
    (hb : (s.thr t).state ≠ .blocked) : c.tickWheel ≤ (s.thr t).wheelSlot := by
  by_contra hw
  exact hb (h.slot_blocked t ht (by omega))

theorem Tcb.Runnable.ne_blocked {x : Tcb} (h : x.Runnable) : x.state ≠ .blocked := by
  rcases h with h | h <;> simp [h]

theorem Tcb.Runnable.ne_invalid {x : Tcb} (h : x.Runnable) : x.state ≠ .invalid := by
  rcases h with h | h <;> simp [h]

theorem Tcb.Runnable.alive {x : Tcb} (h : x.Runnable) : x.state ≠ .terminated := by
  rcases h with h | h <;> simp [h]

/-- The records when the node is back on its list. -/
theorem relink_add_thr (hp : (f (s.thr t)).priority < c.priority) :
    (addThreadToReadyRunningList c ((removeThreadFromReadyRunningList c s t).modT t
      fun x => { f x with state := .suspended }) t).thr =
      update s.thr t (readied c (removeThreadFromReadyRunningList c s t).globalTick
        { f (s.thr t) with state := .suspended }) := by
  rw [add_thr (by simp [Tcb.Runnable]) (by simpa [remove_thr] using hp)]
  simp [Sched.modT, remove_thr]

theorem relink_thr_ne {u : Tid} (hp : (f (s.thr t)).priority < c.priority)
    (hu : u ≠ t) : (relink c s t f).thr u = s.thr u := by
  unfold relink
  simp only
  split
  · rw [modT_thr_ne _ hu, relink_add_thr hp, update_of_ne hu]
  · rw [relink_add_thr hp, update_of_ne hu]

theorem relink_thr_self (hr : (s.thr t).Runnable)
    (hp : (f (s.thr t)).priority < c.priority) : (relink c s t f).thr t =
      { readied c (removeThreadFromReadyRunningList c s t).globalTick
          { f (s.thr t) with state := .suspended } with state := (s.thr t).state } := by
  unfold relink
  simp only
  split
  · rename_i hs
    rw [modT_thr_self, relink_add_thr hp, update_self, hs]
  · rename_i hs
    rw [relink_add_thr hp, update_self, hr.resolve_right hs]
    rfl

section
variable (h : Linked c X s)
include h

theorem Linked.relink (ht : t ∉ X) (hr : (s.thr t).Runnable)
    (hp : (f (s.thr t)).priority < c.priority)
    (hw : (f (s.thr t)).wheelSlot = (s.thr t).wheelSlot) : Linked c X (relink c s t f) := by
  have hslot := h.slot_of_not_blocked ht hr.ne_blocked
  have hd := (h.remove ht hr).modT_off (mem_insert t X)
    (f := fun x => { f x with state := .suspended }) (by simpa [remove_thr] using hp)
  have ha := hd.add ht (by simp [Tcb.Runnable]) (by simpa [remove_thr, hw] using hslot)
  unfold Os.relink
  simp only
  split
  · have hst := congrArg Tcb.state (congrFun (relink_add_thr hp) t)
    rw [update_self, readied_state] at hst
    refine ha.modT ?_ (ha.prio_lt t) rfl fun hb => ?_
    · rw [home_runnable (.inl hst), home_runnable (.inr rfl)]
      rfl
    · rw [hst] at hb
      cases hb
  · exact ha

theorem Linked.priorityApply (ht : t ∉ X) (p : Nat) : Linked c X (threadPriorityApply c s t p) := by
  unfold threadPriorityApply
  simp only
  split
  · exact h
  rename_i hp
  have hp' : p < c.priority := by omega
  split
  · rename_i hr
    exact h.relink ht hr hp' rfl
  rename_i hr
  exact h.modT (home_congr_idle hr rfl rfl) hp' rfl id

theorem Linked.deadlineApply (ht : t ∉ X) (d : BitVec 32) :
    Linked c X (threadDeadlineApply c s t d) := by
  unfold threadDeadlineApply
  simp only
  split
  · exact h
  rename_i hd
  split
  · rename_i hr
    exact h.relink ht hr.2 (h.prio_lt t) rfl
  rename_i hr
  refine h.modT ?_ (h.prio_lt t) rfl id
  by_cases hrun : (s.thr t).Runnable
  · -- a runnable thread is left in place only when its class does not change
    rw [home_runnable hrun, home_runnable (by exact hrun)]
    have hcl : dlScheduled c { s.thr t with dlDeadlineInherit := d } =
        dlScheduled c (s.thr t) := by
      by_cases hc : c.deadline = true
      · simp only [deadlineRelinks, hc, if_true, hrun, and_true, decide_eq_true_eq, not_or,
          not_not] at hr
        exact absurd (hr.2.1.trans hr.2.2.symm) hd
      · simp [dlScheduled, hc]
    rw [hcl]
  · exact home_congr_idle hrun rfl rfl

/-- DL accounting does not move a node. -/
theorem Linked.account (hf : Accounted (s.thr t) (f (s.thr t))) : Linked c X (s.modT t f) :=
  h.modT hf.home (hf.priority ▸ h.prio_lt t) hf.slot fun hb => hf.state.trans hb

theorem Linked.dlReplenish (ht : t ∉ X) (hd : home c (s.thr t) = some .dl) :
    Linked c X (dlReplenish s t) := by
  unfold Os.dlReplenish
  simp only
  split
  · exact h
  have hm := (h.unlink ht (by rw [hd]; simp)).modT_off (mem_insert t X)
    (f := dlNextJob s.globalTick)
    (by rw [(dlNextJob_accounted _ _).priority]; exact h.prio_lt t)
  refine hm.dlInsert ht ?_ ?_
  · rw [modT_thr_self, (dlNextJob_accounted _ _).home]
    exact hd
  · rw [modT_thr_self, (dlNextJob_accounted _ _).slot, (dlNextJob_accounted _ _).state]
    exact h.slot_blocked t ht

end

theorem dlReplenish_home (u : Tid) : home c ((dlReplenish s t).thr u) = home c (s.thr u) := by
  unfold Os.dlReplenish
  simp only
  split
  · rfl
  by_cases hu : u = t
  · subst hu
    rw [dlListInsert_thr, modT_thr_self]
    exact (dlNextJob_accounted _ _).home
  · rw [dlListInsert_thr, modT_thr_ne _ hu]
    rfl

theorem Linked.dlReplenishDue (h : Linked c ∅ s) : Linked c ∅ (dlReplenishDue s) := by
  refine (List.foldlRecOn (motive := fun s' => Linked c ∅ s' ∧ ∀ u,
    home c (s'.thr u) = home c (s.thr u)) _ _ ⟨h, fun _ => rfl⟩ fun s' hs t ht => ?_).1
  refine ⟨hs.1.dlReplenish (notMem_empty t) ?_, fun u => ?_⟩
  · rw [hs.2]
    exact (h.mem_iff _ _ (notMem_empty t)).mp ht
  · rw [dlReplenish_home, hs.2]

/-- A thread that is READY or RUNNING, or linked nowhere, goes to the wheel. -/
theorem Linked.dlThrottle (h : Linked c X s) (ht : t ∉ X)
    (hd : (s.thr t).Runnable ∨ home c (s.thr t) = none) : Linked c X (dlThrottle c s t) := by
  have hdet : Linked c (insert t X) (removeThreadFromReadyRunningList c s t) := by
    by_cases hr : (s.thr t).Runnable
    · exact h.remove ht hr
    · rw [remove_of_not_runnable hr]
      exact h.detached ht (hd.resolve_left hr)
  unfold Os.dlThrottle
  refine (hdet.modT_off (mem_insert t X) ?_).wheelInsert ht (by omega)
  rw [(dlMarkThrottled_accounted _).priority, remove_thr]
  exact h.prio_lt t

/-- Charging a tick keeps the lists unless it throttles a thread that sits in the
wheel or on the corpse queue. -/
theorem Linked.dlTickDecrement (h : Linked c ∅ s)
    (ht : ∀ t, s.current = some (.thread t) → dlCharged s t → (dlSpend s (s.thr t)).dlBudget = 0 →
      (s.thr t).Runnable ∨ home c (s.thr t) = none) : Linked c ∅ (dlTickDecrement c s) := by
  unfold Os.dlTickDecrement
  split
  · rename_i t hc
    split
    · rename_i hch
      have hm : Linked c ∅ (s.modT t (dlSpend s)) := h.account (dlSpend_accounted s _)
      simp only
      split
      · rename_i hb
        rw [modT_thr_self] at hb
        refine hm.dlThrottle (notMem_empty t) ?_
        rw [modT_thr_self, (dlSpend_accounted s _).home, Tcb.Runnable, (dlSpend_accounted s _).state]
        exact ht t hc hch hb
      · exact hm
    · exact h
  · exact h

end keep

/-! ## What a change of rank leaves alone -/

/-- From `s` to `s'` threads only changed rank: priority, inherited deadline and, for a
DL thread whose job was over, the job. -/
structure Reranked (s s' : Sched) : Prop where
  state : ∀ u, (s'.thr u).state = (s.thr u).state
  base : ∀ u, (s'.thr u).basePriority = (s.thr u).basePriority
  slot : ∀ u, (s'.thr u).wheelSlot = (s.thr u).wheelSlot
  resume : ∀ u, (s'.thr u).resumeTime = (s.thr u).resumeTime
  current : s'.current = s.current
  level : s'.currentPriority = s.currentPriority

theorem Reranked.refl (s : Sched) : Reranked s s :=
  ⟨fun _ => rfl, fun _ => rfl, fun _ => rfl, fun _ => rfl, rfl, rfl⟩

theorem Reranked.trans {s₁ s₂ s₃ : Sched} (h₁ : Reranked s₁ s₂) (h₂ : Reranked s₂ s₃) :
    Reranked s₁ s₃ where
  state u := (h₂.state u).trans (h₁.state u)
  base u := (h₂.base u).trans (h₁.base u)
  slot u := (h₂.slot u).trans (h₁.slot u)
  resume u := (h₂.resume u).trans (h₁.resume u)
  current := h₂.current.trans h₁.current
  level := h₂.level.trans h₁.level

section rerank

variable {c : Cfg} {s : Sched} {t : Tid} {f : Tcb → Tcb}

@[simp] theorem remove_current : (removeThreadFromReadyRunningList c s t).current = s.current ∧
    (removeThreadFromReadyRunningList c s t).currentPriority = s.currentPriority := by
  unfold removeThreadFromReadyRunningList
  simp only
  split_ifs <;> exact ⟨rfl, rfl⟩

@[simp] theorem add_current : (addThreadToReadyRunningList c s t).current = s.current ∧
    (addThreadToReadyRunningList c s t).currentPriority = s.currentPriority := by
  unfold addThreadToReadyRunningList
  simp only
  split_ifs <;> exact ⟨rfl, rfl⟩

@[simp] theorem relink_current (f : Tcb → Tcb) : (relink c s t f).current = s.current ∧
    (relink c s t f).currentPriority = s.currentPriority := by
  unfold relink
  simp only
  split <;> simp [modT]

theorem relink_reranked (hr : (s.thr t).Runnable) (hp : (f (s.thr t)).priority < c.priority)
    (hb : (f (s.thr t)).basePriority = (s.thr t).basePriority)
    (hw : (f (s.thr t)).wheelSlot = (s.thr t).wheelSlot)
    (hm : (f (s.thr t)).resumeTime = (s.thr t).resumeTime) : Reranked s (relink c s t f) := by
  refine ⟨fun u => ?_, fun u => ?_, fun u => ?_, fun u => ?_, (relink_current f).1,
    (relink_current f).2⟩ <;>
  · by_cases hu : u = t
    · subst hu
      simp [relink_thr_self hr hp, hb, hw, hm]
    · rw [relink_thr_ne hp hu]

theorem modT_reranked (hs : (f (s.thr t)).state = (s.thr t).state)
    (hb : (f (s.thr t)).basePriority = (s.thr t).basePriority)
    (hw : (f (s.thr t)).wheelSlot = (s.thr t).wheelSlot)
    (hm : (f (s.thr t)).resumeTime = (s.thr t).resumeTime) : Reranked s (s.modT t f) := by
  refine ⟨fun u => ?_, fun u => ?_, fun u => ?_, fun u => ?_, rfl, rfl⟩ <;>
  · rw [modT_thr]
    split
    · rename_i hu
      subst hu
      assumption
    · rfl

theorem priorityApply_reranked (p : Nat) : Reranked s (threadPriorityApply c s t p) := by
  unfold threadPriorityApply
  simp only
  split
  · exact .refl s
  rename_i hp
  split
  · rename_i hr
    exact relink_reranked hr (by simp only; omega) rfl rfl rfl
  · exact modT_reranked rfl rfl rfl rfl

theorem deadlineApply_reranked {X : Set Tid} (h : Linked c X s) (d : BitVec 32) :
    Reranked s (threadDeadlineApply c s t d) := by
  unfold threadDeadlineApply
  simp only
  split
  · exact .refl s
  split
  · rename_i hr
    exact relink_reranked hr.2 (h.prio_lt t) rfl rfl rfl
  · exact modT_reranked rfl rfl rfl rfl

end rerank

end MiniTree.Os
