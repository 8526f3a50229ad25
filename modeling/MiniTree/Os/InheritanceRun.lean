import Mathlib.Logic.Relation
import MiniTree.Os.InheritanceThread

/-!
# Priority inversion over whole runs

`InheritSafe` collects the conditions of `Os.InheritanceMutex` and `Os.InheritanceThread`;
`Inherits.step` shows that every label but a change of the base priority keeps the order
under them.

What goes wrong without `ParkSafe`: the boost is given in the first critical section of
`mini_os_mutex_lock`, and the thread is on the wait list only from the third on. A
recomputation in between (another waiter times out) builds the owner's priority from the
wait lists alone, and the boost is gone when the thread parks.

**Results.** `inherits_isInvariant`, `noInversion_of_reachable`.
-/

namespace MiniTree.Os

open MiniTree.Core List

/-- The label of `mini_os_thread_set_priority`. -/
def setsBase : Label → Bool
  | .setPriority _ _ => true
  | _ => false

/-- The conditions of a step: those of mutual exclusion, the base priorities stay, the
chains are short, and a lock parks with its boost in place. -/
def InheritSafe (c : Cfg) (k : Kernel) (l : Label) : Prop :=
  ExclusionSafe c k l ∧ setsBase l = false ∧ ShortChains c k ∧
    (l = .cs → ∀ t ∈ running k, ParkSafe k t (k.wait t).call)

section run

variable {c : Cfg} {k k' : Kernel} {t : Tid}

theorem inherits_boot (c : Cfg) : Inherits c (boot c) none where
  aimed _ _ hw := absurd hw not_mem_nil
  idle _ _ hw := absurd hw not_mem_nil
  named _ _ hl := absurd hl id
  ranked := ⟨fun _ _ _ _ _ hw => absurd hw not_mem_nil, fun _ _ _ _ => rfl, fun _ => c.priority_pos⟩

theorem Inherits.step (h : Inherits c k none) (hx : Exclusive c k) {l : Label}
    (hs : InheritSafe c k l) (hk : step c k l = some k') : Inherits c k' none := by
  obtain ⟨⟨⟨htick, htest⟩, -, hkill, -⟩, hb, hs, hp⟩ := hs
  have hrun : ∀ {t}, running k = some t → (k.thr t).Runnable := fun hr => (hx.of_running hr).1
  cases move_of_step hk with
  | tick => exact h.tick hx.intact (htick rfl)
  | switch => exact h.sched (.switch hx.intact.linked)
  | wake hw => exact h.wake hx.intact.parked.nodup (hx.intact.parked.blocked _ _ hw) _
  | create => exact h.create hx _
  | createDl => exact h.createDl hx _ _ _
  | mutexCreate => exact h.createMutex hx _ _
  | enableKill => exact h.enableKill
  | lockFirst hr hc => exact h.lockFirst hx hr hs hc
  | lockSemAcquire _ hc => exact h.lockSemAcquire hc
  | lockSemTake hr hc => exact h.lockSemTake (hrun hr).alive hc (hp rfl _ hr)
  | lockUnparked => exact h.lockUnparked
  | lockSemRelease => exact h.lockSemRelease _
  | lockLast hr => exact h.lockLast hx hr hs _
  | lockEnd => exact h.lockEnd
  | unlockGive => exact h.unlockGive hx.intact
  | unparked => exact h.waitDone.leave fun _ => id
  | resumed hr hc =>
    exact (h.resume (hc ▸ htest rfl _ hr : TestHolds k (.resume _))).leave fun _ => id
  | deleted hr hc =>
    exact (h.delete hx hs (hc ▸ htest rfl _ hr : TestHolds k (.delete _))).leave fun _ => id
  | recomputed _ _ hl => exact (h.recompute hx hs hl).leave fun _ => id
  | stale | resume | delete => exact h.leave fun _ => id
  | lock _ _ hm => exact h.lockBegin (hx.owned.lt_of_live hm) _
  | unlock hr => exact h.unlockFirst hx hr hs
  | mutexDelete => exact h.deleteCommon hx hs _
  | delay hr => exact h.delay (hrun hr) _
  | park hr => exact (h.parkObj (hrun hr).alive _ _ _).leave fun _ => id
  | jobFinish => exact h.jobFinish
  | exit hr => exact h.exit hx (hkill _ hr _ rfl)
  | suspend => exact h.suspend hx hs
  | setPriority => cases hb
  | setDeadline => exact (h.setDeadline hx.intact _).leave fun _ => id
  | setBandwidth => exact h.setBandwidth _ _
  | reap => exact h.reap hx.intact

theorem inherits_isInvariant (c : Cfg) : ((kernel c).restrict (InheritSafe c)).IsInvariant
    fun k => Exclusive c k ∧ Inherits c k none where
  init _ hk := hk ▸ ⟨⟨intact_boot c, owned_boot c⟩, inherits_boot c⟩
  step _ _ _ h hs := ⟨h.1.step hs.1.1.1 hs.1.1.2.2.1 hs.1.1.2.2.2 hs.2, h.2.step h.1 hs.1 hs.2⟩

end run

def WaitsFor (k : Kernel) (w o : Tid) : Prop :=
  ∃ m, w ∈ k.waiters (.mutex m) ∧ (k.mutex m).owner = some o

/-- No priority inversion through a mutex: along a chain of blocked owners nobody runs less
urgently than the thread that waits, and a thread without a mutex runs at its base
priority. -/
structure NoInversion (k : Kernel) : Prop where
  chain : ∀ w o, Relation.TransGen (WaitsFor k) w o → (k.thr o).priority ≤ (k.thr w).priority
  base : ∀ t, (k.thr t).state ≠ .terminated → (∀ m, (k.mutex m).owner ≠ some t) →
    (k.thr t).priority = (k.thr t).basePriority

theorem Inherits.noInversion {c : Cfg} {k : Kernel} (h : Inherits c k none) (hx : Exclusive c k) :
    NoInversion k where
  chain w o hwo := by
    have hone : ∀ {w o}, WaitsFor k w o → (k.thr o).priority ≤ (k.thr w).priority := by
      rintro w o ⟨m, hm, ho⟩
      exact h.ranked.edge m o w ho (by simp) hm
    induction hwo with
    | single hw => exact hone hw
    | tail _ hw ih => exact (hone hw).trans ih
  base t hst hno := by
    refine h.ranked.base t (by simp) hst (eq_nil_iff_forall_not_mem.mpr fun m hm => ?_)
    exact hno m ((hx.owned.hold m t).mp hm)

theorem noInversion_of_reachable (c : Cfg) (k : Kernel)
    (hr : ((kernel c).restrict (InheritSafe c)).Reachable k) : NoInversion k :=
  let h := (inherits_isInvariant c).holds hr
  h.2.noInversion h.1

/-- An owner of base priority 5 runs at the priority of the thread parked on its mutex. -/
theorem noInversion_of_reachable_boosted : ∃ k : Kernel,
    ((k.thr 0).priority = 1 ∧ (k.thr 0).basePriority = 5 ∧ k.waiters (.mutex 0) = [1]) ∧
      NoInversion k := by
  obtain ⟨k, hk, hp⟩ := kernel_execOk (Cfg.build false false)
    (fun k l => (StepKeeps (Cfg.build false false) k l ∧ MemSafe (Cfg.build false false) k l ∧
      StepKillSafe k l ∧ deletion l = none) ∧ setsBase l = false ∧
      ShortChains (Cfg.build false false) k ∧
      (l = .cs → ∀ t ∈ running k, ParkSafe k t (k.wait t).call))
    [.create 5, .mutexCreate false true, .switch, .lock 0 0, .cs, .cs, .create 1, .switch,
      .lock 0 (-1), .cs, .cs, .cs]
    (fun k => (k.thr 0).priority = 1 ∧ (k.thr 0).basePriority = 5 ∧
      k.waiters (.mutex 0) = [1]) (by decide +kernel)
  refine ⟨k, hp, noInversion_of_reachable (Cfg.build false false) k ?_⟩
  refine hk.mono fun k l hl => ⟨⟨hl.1.1, hl.1.2.1, hl.1.2.2.1, fun d hd => ?_⟩, hl.2⟩
  rw [hl.1.2.2.2] at hd
  cases hd

/-- A thread of priority 1 boosts the owner and is preempted; the timeout of another waiter
takes the boost back, and the thread parks behind an owner that runs at priority 5. -/
theorem noInversion_fails_after_timeout : ¬ ∀ k, ((kernel (Cfg.build false false)).restrict fun k l =>
      ShortChains (Cfg.build false false) k ∧ setsBase l = false).Reachable k → NoInversion k := by
  intro h
  obtain ⟨k, hk, h0, h2, hw, ho⟩ := kernel_execOk (Cfg.build false false)
    (fun k l => ShortChains (Cfg.build false false) k ∧ setsBase l = false)
    [.create 5, .mutexCreate false true, .switch, .lock 0 0, .cs, .cs, .create 0, .create 1,
      .delay 20, .switch, .lock 0 1, .cs, .cs, .cs, .switch, .lock 0 (-1), .cs, .tick, .switch, .cs,
      .cs, .cs, .cs, .delay 5, .switch, .cs, .cs]
    (fun k => (k.thr 0).priority = 5 ∧ (k.thr 2).priority = 1 ∧
      2 ∈ k.waiters (.mutex 0) ∧ (k.mutex 0).owner = some 0) (by decide +kernel)
  have := (h k hk).chain 2 0 (.single ⟨0, hw, ho⟩)
  omega

end MiniTree.Os
