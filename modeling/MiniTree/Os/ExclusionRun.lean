import MiniTree.Os.Exclusion

/-!
# Mutual exclusion over whole runs

`ExclusionSafe` collects the conditions of `Os.Exclusion`; `Exclusive.step` shows that
every label keeps the ownership invariant under them.

**Results.** `exclusive_isInvariant`, `mutexExclusive_of_reachable`.
-/

namespace MiniTree.Os

open MiniTree.Core List

/-! ## Names -/

section names

variable {c : Cfg} {k k' : Kernel} {t : Tid} {m : Mid}

theorem killHeld_names : SameNames k (mutexKillHeld c k t) :=
  foldlRecOn _ (mutexKillOne c) ⟨rfl, rfl⟩ fun _ h _ _ =>
    have hk := Unparks.killWaiters.names
    ⟨hk.1.trans h.1, hk.2.trans h.2⟩

theorem threadDelete_names : SameNames k (threadDelete c k t) := by
  have h1 : SameNames k (threadUnlink c k t) := (Unparks.threadUnlink (b := true)).names
  have h2 := killHeld_names (c := c) (t := t) (k := { threadUnlink c k t with
    toSync := syncWaitRefDropAll (threadUnlink c k t).toSync t })
  exact ⟨h2.1.trans h1.1, h2.2.trans h1.2⟩

theorem deleteCommon_names (b : Bool) : SameNames k (mutexDeleteCommon c k m b).2 := by
  unfold mutexDeleteCommon
  split
  · simp only
    split
    · exact Unparks.killWaiters.names
    · exact ⟨rfl, rfl⟩
  · exact ⟨rfl, rfl⟩

def creates : Label → Bool
  | .create _ | .createDl _ _ _ | .mutexCreate _ _ => true
  | _ => false

theorem Move.names {l : Label} (h : Move c k l k') (hl : creates l = false) : SameNames k k' := by
  cases h with
  | tick => exact Unparks.tick.names
  | create | createDl | mutexCreate => cases hl
  | deleted => exact threadDelete_names
  | mutexDelete => exact deleteCommon_names _
  | exit => exact killHeld_names
  | suspend => exact (Unparks.suspend (b := true)).names
  | lockFirst =>
    unfold Os.lockFirst
    dsimp only
    split_ifs <;> first | exact ⟨rfl, rfl⟩ | (split <;> exact ⟨rfl, rfl⟩)
  | lockSemAcquire =>
    unfold Os.lockSemAcquire
    dsimp only
    split <;> exact ⟨rfl, rfl⟩
  | lockSemTake =>
    unfold Os.lockSemTake
    split_ifs <;> exact ⟨rfl, rfl⟩
  | lockLast =>
    unfold Os.lockLast
    dsimp only
    split
    · exact ⟨rfl, rfl⟩
    · split <;> exact ⟨rfl, rfl⟩
    · exact ⟨rfl, rfl⟩
  | unlockGive =>
    unfold Os.unlockGive
    dsimp only
    split
    · exact ⟨rfl, rfl⟩
    · split <;> exact ⟨rfl, rfl⟩
  | resumed =>
    unfold threadResume
    dsimp only
    split <;> exact ⟨rfl, rfl⟩
  | lock =>
    unfold lockBegin
    dsimp only
    split <;> exact ⟨rfl, rfl⟩
  | unlock =>
    unfold unlockFirst
    dsimp only
    split_ifs <;> exact ⟨rfl, rfl⟩
  | delay =>
    unfold scheduleDelay
    split <;> exact ⟨rfl, rfl⟩
  | jobFinish =>
    unfold deadlineJobFinish
    dsimp only
    split <;> exact ⟨rfl, rfl⟩
  | setBandwidth =>
    unfold deadlineThreadSetBandwidth
    extract_lets x r p
    split_ifs <;> exact ⟨rfl, rfl⟩
  | _ => exact ⟨rfl, rfl⟩

end names

/-! ## Runs -/

/-- The thread whose mutexes a step force-releases: one that exits, or the target of the
deletion the running call is about to make. -/
def killed (k : Kernel) (t : Tid) : Label → Option Tid
  | .exit => some t
  | .cs => match (k.wait t).call with
    | .delete u => some u
    | _ => none
  | _ => none

/-- A thread that exits or is deleted can be relieved of its mutexes. -/
def StepKillSafe (k : Kernel) (l : Label) : Prop :=
  ∀ t ∈ running k, ∀ u ∈ killed k t l, KillSafe k u
  deriving Decidable

/-- The deletion of a mutex a step asks for. -/
def deletion : Label → Option (Mid × Bool)
  | .mutexDelete m isStatic => some (m, isStatic)
  | _ => none

/-- The conditions of a step: the lists are kept, memory is, mutexes can be force-released,
and a mutex is not deleted under a lock. -/
def ExclusionSafe (c : Cfg) (k : Kernel) (l : Label) : Prop :=
  StepKeeps c k l ∧ MemSafe c k l ∧ StepKillSafe k l ∧ ∀ d ∈ deletion l, MutexDeleteSafe k d.1 d.2

section run

variable {c : Cfg} {k k' : Kernel} {t : Tid}

structure Exclusive (c : Cfg) (k : Kernel) : Prop where
  intact : Intact c ∅ k
  owned : Owned k.toSync k.nThread k.nMutex

theorem Exclusive.of_running (h : Exclusive c k) (hr : running k = some t) :
    (k.thr t).Runnable ∧ (k.wait t).waitList = none ∧ t < k.nThread := by
  have hrun : (k.thr t).Runnable := .inr (running_eq_some.mp hr).2
  exact ⟨hrun, h.intact.not_waiting hrun.ne_blocked, not_le.mp fun hle =>
    hrun.ne_invalid (h.intact.fresh t hle)⟩

theorem Exclusive.step (h : Exclusive c k) {l : Label} (hkeeps : StepKeeps c k l)
    (hs : StepKillSafe k l) (hd : ∀ d ∈ deletion l, MutexDeleteSafe k d.1 d.2)
    (hk : step c k l = some k') : Exclusive c k' := by
  refine ⟨h.intact.step hkeeps hk, ?_⟩
  have ho := h.owned
  have hw : ∀ {t}, running k = some t → (k.wait t).waitList = none := fun hr => (h.of_running hr).2.1
  have hm := move_of_step hk
  have hsame : creates l = false → Owned k'.toSync k.nThread k.nMutex →
      Owned k'.toSync k'.nThread k'.nMutex := fun hl ho => by
    rw [(hm.names hl).1, (hm.names hl).2]
    exact ho
  -- a call that begins, ends or goes on with nothing in hand
  have hquiet : ∀ {y : Sync} {t : Tid} {call : Call}, Owned y k.nThread k.nMutex →
      (y.wait t).waitList = none → (∀ m, ¬ HasUnit { y.wait t with call := call } m) →
      (∀ m, ¬ Undecided m call) →
      Owned (y.modW t fun x => { x with call := call }) k.nThread k.nMutex := fun h hw h1 h2 =>
    h.setCall hw (fun m hm => absurd hm (h1 m)) fun m hm => absurd hm (h2 m)
  cases hm with
  | tick => exact hsame rfl (ho.unparks .tick)
  | switch | reap => exact ho
  | wake hl =>
    have hc := (ho.parked _ _ hl).1
    exact ho.wake (fun m hm => by rw [hc] at hm; cases hm) _
  | create =>
    unfold threadCreate
    split
    · exact ho
    · exact ho.spawn
  | createDl =>
    unfold deadlineThreadCreate
    split
    · exact ho
    · split
      · exact ho
      · exact ho.spawn
  | mutexCreate => exact ho.createMutex _ _
  | enableKill => exact ho.enableKill
  | lockFirst hr hc => exact hsame rfl (ho.lockFirst (hw hr) (h.of_running hr).2.2 hc)
  | lockSemAcquire hr hc => exact hsame rfl (ho.lockSemAcquire (hw hr) hc)
  | lockSemTake hr hc => exact hsame rfl (ho.lockSemTake (hw hr) hc)
  | lockUnparked hr hc => exact ho.lockUnparked (hw hr) hc
  | lockSemRelease hr hc => exact ho.lockSemRelease (hw hr) hc
  | lockLast hr hc => exact hsame rfl (ho.lockLast (hw hr) (h.of_running hr).2.2 hc)
  | lockEnd hr => exact ho.lockEnd (hw hr)
  | unlockGive hr hc =>
    exact hsame rfl (ho.unlockGive (hw hr) (fun w u hu => (h.intact.parked.mem_iff w u).mp hu) hc)
  | unparked hr => exact ho.waitDone (hw hr) (fun _ hm => absurd hm id) fun _ => id
  | resumed hr =>
    have hy : ∀ u, (threadResume c k u).toSync = k.toSync := fun u => by
      unfold threadResume
      dsimp only
      split <;> rfl
    exact hsame rfl (hquiet (hy _ ▸ ho) (hy _ ▸ hw hr) (fun _ => id) fun _ => id)
  | deleted hr hc =>
    exact hsame rfl (hquiet (ho.delete (hs _ hr _ (by simp [killed, hc])))
      (threadDelete_waitList (hw hr)) (fun _ => id) fun _ => id)
  | recomputed hr | stale hr | resume hr | delete hr | setPriority hr | setDeadline hr =>
    exact hquiet ho (hw hr) (fun _ => id) fun _ => id
  | lock hr _ hm => exact hsame rfl (ho.lockBegin (hw hr) hm _)
  | unlock hr => exact hsame rfl (ho.unlockFirst (hw hr))
  | mutexDelete => exact hsame rfl (ho.deleteCommon (hd _ rfl))
  | delay =>
    unfold scheduleDelay
    split <;> exact ho
  | park => exact ho.park (.obj _) _ (.obj _)
  | jobFinish =>
    unfold deadlineJobFinish
    dsimp only
    split <;> exact ho
  | exit hr => exact hsame rfl (ho.killHeld (hs _ hr _ rfl)).1
  | suspend => exact hsame rfl (ho.unparks .suspend)
  | setBandwidth =>
    unfold deadlineThreadSetBandwidth
    extract_lets x r p
    split_ifs <;> exact ho

theorem exclusive_isInvariant (c : Cfg) :
    ((kernel c).restrict (ExclusionSafe c)).IsInvariant (Exclusive c) where
  init _ hk := hk ▸ ⟨intact_boot c, owned_boot c⟩
  step _ _ _ h hs := h.step hs.1.1 hs.1.2.2.1 hs.1.2.2.2 hs.2

end run

/-- Mutual exclusion of `m`: at most one thread is inside a lock, the `hold_node` is linked
on that thread's `hold_list` once and on no other list, and the semaphore counts a unit
only while nobody owns the mutex or was handed the unit. -/
structure MutexExclusive (y : Sync) (m : Mid) : Prop where
  one : ∀ t u, m ∈ (y.wait t).locks → m ∈ (y.wait u).locks → t = u
  held : ∀ t, m ∈ (y.wait t).locks → (y.wait t).holdList.count m = 1
  only : ∀ t, m ∈ (y.wait t).holdList → m ∈ (y.wait t).locks
  count : (y.mutex m).count = 1 → (y.mutex m).owner = none ∧ (∀ t, m ∉ (y.wait t).locks) ∧
    ∀ t, ¬ HasUnit (y.wait t) m

theorem Owned.mutexExclusive {y : Sync} {nT nM : Nat} (h : Owned y nT nM) (m : Mid) :
    MutexExclusive y m where
  one t u ht hu := by
    rw [h.locks, h.hold] at ht hu
    exact Option.some.inj (ht.symm.trans hu)
  held t ht := count_eq_one_of_mem (h.nodup t) (h.locks t ▸ ht)
  only t ht := (h.locks t).symm ▸ ht
  count hc := by
    have hno := (h.unit m).none_of_pos (by omega)
    have howner := owner_eq_none hno
    refine ⟨howner, fun t ht => ?_, fun t => hno (.call t)⟩
    rw [h.locks, h.hold, howner] at ht
    cases ht

theorem mutexExclusive_of_reachable (c : Cfg) (k : Kernel)
    (hr : ((kernel c).restrict (ExclusionSafe c)).Reachable k) (m : Mid) : MutexExclusive k.toSync m :=
  ((exclusive_isInvariant c).holds hr).owned.mutexExclusive m

/-- The owner of an armed mutex exits with a thread parked on the mutex; the waiter is
told that its wait failed and the unit is back in the count. -/
theorem mutexExclusive_of_reachable_killed : ∃ k : Kernel,
    ((k.wait 1).waitStatus = false ∧ (k.wait 1).waitList = none ∧ (k.mutex 0).count = 1) ∧
      MutexExclusive k.toSync 0 := by
  obtain ⟨k, hk, hp⟩ := kernel_execOk (Cfg.build false false)
    (fun k l => StepKeeps (Cfg.build false false) k l ∧ MemSafe (Cfg.build false false) k l ∧
      StepKillSafe k l ∧ deletion l = none)
    [.create 5, .create 5, .mutexCreate false true, .enableKill 0, .switch, .lock 0 0, .cs, .cs,
      .switch, .lock 0 (-1), .cs, .cs, .cs, .switch, .exit]
    (fun k => (k.wait 1).waitStatus = false ∧ (k.wait 1).waitList = none ∧
      (k.mutex 0).count = 1) (by decide +kernel)
  refine ⟨k, hp, mutexExclusive_of_reachable (Cfg.build false false) k ?_ 0⟩
  refine hk.mono fun k l hl => ⟨hl.1, hl.2.1, hl.2.2.1, fun d hd => ?_⟩
  rw [hl.2.2.2] at hd
  cases hd

/-- The owner of a mutex that is not armed exits with two threads parked on the mutex:
both are woken with success, both become owners, and the count holds a third unit. -/
theorem mutexExclusive_fails_after_exit :
    ¬ ∀ k, (kernel (Cfg.build false false)).Reachable k → ∀ m, MutexExclusive k.toSync m := by
  intro h
  obtain ⟨k, hk, h1, h2⟩ := kernel_exec (Cfg.build false false)
    [.create 5, .create 5, .create 5, .mutexCreate false true, .switch, .lock 0 0, .cs, .cs,
      .switch, .lock 0 (-1), .cs, .cs, .cs, .switch, .switch, .lock 0 (-1), .cs, .cs, .cs, .switch,
      .exit, .switch, .cs, .cs, .cs, .cs, .switch, .cs, .cs, .cs, .cs]
    (fun k => 0 ∈ (k.wait 1).locks ∧ 0 ∈ (k.wait 2).locks) (by decide +kernel)
  exact absurd ((h k hk 0).one 1 2 h1 h2) (by decide)

end MiniTree.Os
