import MiniTree.Os.IntegrityThread

/-!
# List integrity over whole runs

The SysTick handler and the context switch keep `Intact`; with the mutex and thread
operations that covers every label of `step`. The conditions are collected in
`StepKeeps`:

* `TickSafe`: the SysTick handler charges `mini_os_current_thread` even when that
  thread has parked or exited and is only waiting for the context switch. A charge
  that throttles it links its node into the wheel a second time.
* `TestHolds`: a critical section finds the thread in the state the call tested.

`StepSafe` adds what the model itself takes for granted (`MemSafe`, `TakesFree`).

**Results.** `Intact.step`, `intact_isInvariant`, `listIntegrity_of_reachable`.
-/

namespace MiniTree.Os

open MiniTree.Core Set List

/-! ## SysTick -/

section tick

variable {c : Cfg} {k : Kernel} {t : Tid} {s : Sched} {slot : Nat}

theorem leaveSlot_thr_ne {u : Tid} (hu : u ≠ t) : (leaveSlot c s t).thr u = s.thr u := by
  unfold leaveSlot
  simp only
  split
  · rw [modT_thr_ne _ hu, modT_thr_ne _ hu, listRemove_thr]
  · rw [modT_thr_ne _ hu, listRemove_thr]

theorem leaveSlot_self (s : Sched) : ((leaveSlot c s t).thr t).state = (s.thr t).state ∧
    ((leaveSlot c s t).thr t).wheelSlot = c.tickWheel := by
  unfold leaveSlot
  simp only
  split
  · simp only [modT_thr_self, (dlNextJob_accounted _ _).state, (dlNextJob_accounted _ _).slot,
      listRemove_thr, and_self]
  · simp only [modT_thr_self, listRemove_thr, and_self]

/-- A thread whose slot is reached leaves it, still BLOCKED. -/
theorem Linked.leaveSlot (h : Linked c ∅ s)
    (hh : home c (s.thr t) = some (.wheel slot)) : Linked c ∅ (leaveSlot c s t) := by
  have hn := notMem_empty t
  have hd := (h.unlink hn (by rw [hh]; simp)).modT_off (mem_insert t ∅)
    (f := fun x => { x with wheelSlot := c.tickWheel }) (h.prio_lt t)
  have hb := (home_eq_wheel hh).1
  have h1 := hd.settle hn (by simp [home, hb]) (by simp)
  unfold Os.leaveSlot
  simp only
  split
  · exact h1.account (dlNextJob_accounted _ _)
  · exact h1

section
variable (h : Intact c ∅ k)
include h

/-- A BLOCKED thread outside the wheel becomes READY. -/
theorem Intact.expire (hb : (k.thr t).state = .blocked) (hw : (k.thr t).wheelSlot = c.tickWheel) :
    Intact c ∅ (expire c k t) ∧ ∀ u, u ≠ t → (expire c k t).thr u = k.thr u := by
  have hn := notMem_empty t
  unfold Os.expire
  split
  · exact ⟨h.wake hn hb false, fun u hu => wake_thr_ne h hn hb false hu⟩
  rename_i hwait
  have hwk := h.linked.wake hn hb
  rw [wakeNode, if_neg (by omega)] at hwk
  refine ⟨h.of_one (Decidable.not_not.mp hwait) (by rw [hb]; simp) hwk.1 fun u hu => ?_, hwk.2⟩
  rw [hwk.2 u hu]

theorem Intact.tickExpire (hh : home c (k.thr t) = some (.wheel slot)) :
    Intact c ∅ (tickExpire c k t) ∧ ∀ u, u ≠ t → (tickExpire c k t).thr u = k.thr u := by
  unfold Os.tickExpire
  split
  · refine ⟨h.modT (home_congr rfl rfl rfl rfl rfl) (h.linked.prio_lt t) rfl rfl, fun u hu => ?_⟩
    simp only [modT_thr_ne _ hu]
  have hl := leaveSlot_self (c := c) (t := t) k.toSched
  have h1 : Intact c ∅ { k with toSched := Os.leaveSlot c k.toSched t } := by
    refine h.of_sched (h.linked.leaveSlot hh) rfl rfl fun u _ => ?_
    by_cases hu : u = t
    · rw [hu]
      exact hl.1
    · simp only [leaveSlot_thr_ne hu]
  have he := h1.expire (hl.1.trans (home_eq_wheel hh).1) hl.2
  exact ⟨he.1, fun u hu => (he.2 u hu).trans (leaveSlot_thr_ne hu)⟩

/-- What the end of one thread's time keeps, the walk over the slot keeps. -/
theorem Intact.tickDecrement_keeps {P : Kernel → Prop}
    (hP : P { k with currentSlot := (k.currentSlot + 1) % c.tickWheel })
    (hstep : ∀ k' t, Intact c ∅ k' → (k'.thr t).state = .blocked → P k' → P (Os.tickExpire c k' t)) :
    Intact c ∅ (Os.tickDecrement c k) ∧ P (Os.tickDecrement c k) := by
  have hk : Intact c ∅ { k with currentSlot := (k.currentSlot + 1) % c.tickWheel } :=
    h.of_sched (h.linked.congr rfl rfl rfl) rfl rfl fun _ _ => rfl
  refine foldl_keeps (P := fun k' => Intact c ∅ k' ∧ P k')
    (Q := fun k' t => home c (k'.thr t) = some (.wheel ((k.currentSlot + 1) % c.tickWheel)))
    (hk.linked.nodup _) (fun k' t _ hk' hq => ?_) ⟨hk, hP⟩
    fun t ht => (hk.linked.mem_iff _ _ (notMem_empty t)).mp ht
  obtain ⟨h1, h2⟩ := hk'.1.tickExpire hq
  refine ⟨⟨h1, hstep k' t hk'.1 (home_eq_wheel hq).1 hk'.2⟩, fun u hu hqu => ?_⟩
  rw [h2 u hu]
  exact hqu

theorem Intact.tickDecrement : Intact c ∅ (tickDecrement c k) :=
  (h.tickDecrement_keeps (P := fun _ => True) trivial fun _ _ _ _ => id).1

end

/-- The scheduler's data when the handler charges the running thread. -/
def chargeState (c : Cfg) (k : Kernel) : Sched :=
  let s := (Os.tickDecrement c k).toSched
  dlReplenishDue { s with globalTick := s.globalTick + 1 }

/-- A thread whose node is on its ready list, or on none. -/
def ThrottleSafe (c : Cfg) (x : Tcb) : Prop :=
  x.Runnable ∨ x.state = .suspended ∨ (x.state = .blocked ∧ c.tickWheel ≤ x.wheelSlot)
  deriving Decidable

/-- The running thread is out of budget with this charge. -/
def Exhausted (s : Sched) (t : Tid) : Prop := dlCharged s t ∧ (dlSpend s (s.thr t)).dlBudget = 0
  deriving Decidable

/-- A tick that throttles the running thread does not find it parked in the wheel, on
the corpse queue or freed. -/
def TickSafe (c : Cfg) (k : Kernel) : Prop :=
  c.deadline = true → ∀ t ∈ (chargeState c k).current.bind Node.asThread,
    Exhausted (chargeState c k) t → ThrottleSafe c ((chargeState c k).thr t)
  deriving Decidable

theorem TickSafe.throttled (h : TickSafe c k) (hd : c.deadline = true)
    (ht : (chargeState c k).current = some (.thread t)) (he : Exhausted (chargeState c k) t) :
    ThrottleSafe c ((chargeState c k).thr t) := h hd t (by rw [ht]; rfl) he

theorem ThrottleSafe.home {x : Tcb} (h : ThrottleSafe c x) :
    (x.Runnable ∨ home c x = none) ∧ x.state ≠ .invalid := by
  rcases h with h | h | ⟨h, hw⟩
  · exact ⟨.inl h, h.ne_invalid⟩
  · exact ⟨.inr (by simp [Os.home, h]), by simp [h]⟩
  · exact ⟨.inr (by simp [Os.home, h, not_lt.mpr hw]), by simp [h]⟩

theorem ThrottleSafe.alive {x : Tcb} (h : ThrottleSafe c x) : x.state ≠ .terminated := by
  rcases h with h | h | h
  · exact h.alive
  · simp [h]
  · simp [h.1]

theorem dlReplenish_state (u : Tid) : ((dlReplenish s t).thr u).state = (s.thr u).state := by
  unfold dlReplenish
  simp only
  split
  · rfl
  rw [dlListInsert_thr, modT_thr]
  split
  · rename_i hu
    rw [(dlNextJob_accounted _ _).state, hu]
    rfl
  · rfl

theorem dlReplenishDue_state (s : Sched) (u : Tid) :
    ((dlReplenishDue s).thr u).state = (s.thr u).state :=
  foldlRecOn (motive := fun s' : Sched => (s'.thr u).state = (s.thr u).state) _ _ rfl
    fun _ h _ _ => (dlReplenish_state u).trans h

/-- Only the thread that is throttled changes state. -/
theorem dlTickDecrement_state {u : Tid}
    (hu : ∀ t, s.current = some (.thread t) → Exhausted s t → u = t → (s.thr u).state = .blocked) :
    ((dlTickDecrement c s).thr u).state = (s.thr u).state := by
  unfold dlTickDecrement
  split
  · rename_i t hc
    split
    · rename_i hch
      have hm : ∀ v, ((s.modT t (dlSpend s)).thr v).state = (s.thr v).state := by
        intro v
        rw [modT_thr]
        split
        · rename_i hv
          rw [(dlSpend_accounted s _).state, hv]
        · rfl
      simp only
      split
      · rename_i hb
        rw [modT_thr_self] at hb
        unfold dlThrottle
        simp only
        rw [wheelInsert_state _ (by omega)]
        split
        · rename_i hut
          exact (hu t hc ⟨hch, hb⟩ hut).symm
        · rename_i hut
          rw [modT_thr_ne _ hut, remove_thr, hm]
      · exact hm u
    · rfl
  · rfl

theorem Intact.tick (h : Intact c ∅ k) (hs : TickSafe c k) : Intact c ∅ (systickHandler c k) := by
  have h1 := h.tickDecrement
  unfold systickHandler tickAccount
  simp only
  have h2 : Intact c ∅ { Os.tickDecrement c k with
      globalTick := (Os.tickDecrement c k).globalTick + 1 } :=
    h1.of_sched (h1.linked.congr rfl rfl rfl) rfl rfl fun _ _ => rfl
  split
  · rename_i hd
    have hl := h2.linked.dlReplenishDue
    have hst : ∀ u, ((chargeState c k).thr u).state = ((Os.tickDecrement c k).thr u).state := fun u =>
      dlReplenishDue_state _ u
    change Intact c ∅ { Os.tickDecrement c k with toSched := dlTickDecrement c (chargeState c k) }
    refine h1.of_sched
      (hl.dlTickDecrement fun t ht hch hb => (hs.throttled hd ht ⟨hch, hb⟩).home.1) rfl rfl fun u hu => ?_
    refine (dlTickDecrement_state fun t ht he hut => ?_).trans (hst u)
    subst hut
    rcases hu with hu | hu
    · exact absurd ((hst u).trans hu) (hs.throttled hd ht he).home.2
    · cases hw : ((Os.tickDecrement c k).wait u).waitList with
      | none => exact absurd hw hu
      | some w => exact (hst u).trans (h1.parked.blocked u w hw)
  · exact h2

end tick

/-! ## Context switch -/

section switch

variable {c : Cfg} {s : Sched} {t u : Tid}

theorem home_runnable_congr {x y : Tcb} (hx : x.Runnable) (hy : y.Runnable)
    (hp : y.priority = x.priority) (hc : y.schedPolicy = x.schedPolicy)
    (hd : y.dlDeadlineInherit = x.dlDeadlineInherit) : home c y = home c x := by
  rw [home_runnable hx, home_runnable hy, dlScheduled, dlScheduled, hp, hc, hd]

/-- READY and RUNNING are one to the lists. -/
theorem Linked.setRunnable (h : Linked c ∅ s) (hr : (s.thr t).Runnable) {st : ThreadState}
    (hst : st = .ready ∨ st = .running) : Linked c ∅ (s.modT t fun x => { x with state := st }) :=
  h.modT (home_runnable_congr hr hst rfl rfl rfl) (h.prio_lt t) rfl fun hb => absurd hb hr.ne_blocked

theorem runnable_of_home {x : Tcb} (h : home c x = some .dl ∨ ∃ p, home c x = some (.ready p)) :
    x.Runnable := by
  rcases h with h | ⟨p, h⟩
  · unfold home at h
    split at h
    · exact .inl ‹_›
    · exact .inr ‹_›
    · split at h <;> cases h
    · cases h
    · cases h
  · exact (home_eq_ready h).1

section
variable (h : Linked c ∅ s)
include h

theorem headNext_runnable {hd : ListHead} (hh : hd = .dl ∨ ∃ p, hd = .ready p)
    (hn : headNext s hd = .thread u) : (s.thr u).Runnable := by
  have hm : u ∈ s.lists hd := by
    unfold headNext at hn
    split at hn
    · rename_i v hv
      cases hn
      exact mem_of_head? hv
    · cases hn
  have hu := (h.mem_iff _ _ (notMem_empty u)).mp hm
  rcases hh with rfl | ⟨p, rfl⟩
  · exact runnable_of_home (.inl hu)
  · exact runnable_of_home (.inr ⟨p, hu⟩)

/-- The ring of a runnable thread holds runnable threads only. -/
theorem nodeNext_runnable (hr : (s.thr t).Runnable)
    (hn : nodeNext c s t = .thread u) : (s.thr u).Runnable := by
  unfold nodeNext at hn
  split at hn
  · cases hn
    exact hr
  rename_i hd hf
  have ht : t ∈ s.lists hd := by simpa using find?_some hf
  have hth := (h.mem_iff _ _ (notMem_empty t)).mp ht
  split at hn
  · rename_i v hv
    cases hn
    have hu := (h.mem_iff _ _ (notMem_empty u)).mp (Core.Ring.after_mem hv)
    refine runnable_of_home (c := c) ?_
    rw [home_runnable hr] at hth
    split at hth
    · cases hth
      exact .inl hu
    · cases hth
      exact .inr ⟨_, hu⟩
  · cases hn

theorem selectLevel_runnable {old next : Nat}
    (hn : selectLevel c s old next = .thread u) : (s.thr u).Runnable := by
  have hhead : ∀ n, headNext s (.ready next) = n → n = .thread u → (s.thr u).Runnable := by
    rintro n hn rfl
    exact headNext_runnable h (.inr ⟨next, rfl⟩) hn
  unfold selectLevel at hn
  simp only at hn
  split at hn
  · exact hhead _ rfl hn
  split at hn
  · split at hn
    · rename_i hc
      split at hn
      · exact hhead _ rfl hn
      · exact nodeNext_runnable h (.inl hc.2.1) hn
    · exact hhead _ rfl hn
  · exact hhead _ rfl hn

/-- A context switch moves a runnable thread between READY and RUNNING, twice at most, and
notes its choice. What these keep, the switch keeps. -/
theorem Linked.switch_keeps {P : Sched → Prop} (hP : P s)
    (hset : ∀ s' t st, P s' → (s'.thr t).Runnable → st = .ready ∨ st = .running →
      P (s'.modT t fun x => { x with state := st }))
    (hnote : ∀ s' n p, P s' → P { s' with current := n, currentPriority := p }) :
    Linked c ∅ (scheduleSwitch c s).2 ∧ P (scheduleSwitch c s).2 := by
  have hd : Linked c ∅ (demoteCurrent s) ∧ P (demoteCurrent s) := by
    unfold demoteCurrent
    split
    · split
      · rename_i hr
        exact ⟨h.setRunnable (.inr hr) (.inl rfl), hset _ _ _ hP (.inr hr) (.inl rfl)⟩
      · exact ⟨h, hP⟩
    · exact ⟨h, hP⟩
  have hpub : ∀ (s' : Sched) (n : Node), Linked c ∅ s' → P s' →
      (∀ u, n = .thread u → (s'.thr u).Runnable) → Linked c ∅ (publish s' n) ∧ P (publish s' n) := by
    intro s' n hl hP hn
    unfold publish
    split
    · exact ⟨(hl.setRunnable (hn _ rfl) (.inr rfl)).congr rfl rfl rfl,
        hnote _ _ _ (hset _ _ _ hP (hn _ rfl) (.inr rfl))⟩
    · exact ⟨hl.congr rfl rfl rfl, hnote _ _ _ hP⟩
  unfold scheduleSwitch
  simp only
  split
  · exact hpub _ _ hd.1 hd.2 fun u hu => headNext_runnable hd.1 (.inl rfl) hu
  split
  · exact hd
  · have h2 : Linked c ∅ { demoteCurrent s with
        currentPriority := getHighestPriority c (demoteCurrent s) } := hd.1.congr rfl rfl rfl
    exact hpub _ _ h2 (hnote _ _ _ hd.2) fun u hu => selectLevel_runnable h2 hu

/-- A thread that is not runnable is left alone. -/
theorem Linked.switch : Linked c ∅ (scheduleSwitch c s).2 ∧
    ∀ u, ¬ (s.thr u).Runnable → ((scheduleSwitch c s).2.thr u) = s.thr u := by
  refine h.switch_keeps (P := fun s' => ∀ u, ¬ (s.thr u).Runnable → s'.thr u = s.thr u)
    (fun _ _ => rfl) (fun s' t st hs hr _ u hu => ?_) fun _ _ _ => id
  rw [modT_thr_ne, hs u hu]
  rintro rfl
  rw [hs u hu] at hr
  exact hu hr

end

theorem Intact.switch {k : Kernel} (h : Intact c ∅ k) :
    Intact c ∅ { k with toSched := (scheduleSwitch c k.toSched).2 } := by
  have hs := h.linked.switch
  refine h.of_sched hs.1 rfl rfl fun u hu => ?_
  have hnr : ¬ (k.thr u).Runnable := fun hr =>
    hu.elim hr.ne_invalid fun hw => hw (h.not_waiting hr.ne_blocked)
  rw [hs.2 u hnr]

end switch

/-! ## Runs -/

section run

variable {c : Cfg} {k k' : Kernel} {t : Tid}

/-- The state test a call made before it masked interrupts still holds. -/
def TestHolds (k : Kernel) : Call → Prop
  | .resume u => ResumeSafe k u
  | .delete u => DeleteSafe k u
  | _ => True

instance (k : Kernel) (call : Call) : Decidable (TestHolds k call) := by
  unfold TestHolds
  split <;> infer_instance

/-- The steps that keep the lists of the model. -/
def StepKeeps (c : Cfg) (k : Kernel) (l : Label) : Prop :=
  (l = .tick → TickSafe c k) ∧ (l = .cs → ∀ t ∈ running k, TestHolds k (k.wait t).call)
  deriving Decidable

/-- The storage a critical section works on was not given back. -/
def CallLive (k : Kernel) : Call → Prop
  | .none | .objParked _ => True
  | .lockEnter m _ | .lockTake m _ | .lockWait m _ | .lockParked m | .lockTaken m _
  | .lockExit m _ | .lockRelease m _ | .unlockGive m => (k.mutex m).reclaimed = false
  | .resume u | .delete u | .recompute u => Live k u

instance (k : Kernel) (call : Call) : Decidable (CallLive k call) := by
  unfold CallLive
  split <;> infer_instance

/-- The round-robin successor of a current thread that is still ready is no foreign
sentinel. -/
def SwitchSafe (c : Cfg) (s : Sched) : Prop :=
  ¬ (c.deadline = true ∧ s.lists .dl ≠ []) → s.currentPriority = getHighestPriority c s →
    ∀ o ∈ s.current.bind Node.asThread, (s.thr o).Runnable →
      ∀ h ∈ (nodeNext c s o).asHead, h = .ready s.currentPriority
  deriving Decidable

/-- No step after which memory is no longer what the model says: one that works on
storage that was given back, or takes a list sentinel for a TCB. -/
def MemSafe (c : Cfg) (k : Kernel) (l : Label) : Prop :=
  (l = .switch → SwitchSafe c k.toSched) ∧ (l = .cs → ∀ t ∈ running k, CallLive k (k.wait t).call)
  deriving Decidable

/-- A lock that was granted the unit takes a mutex nobody owns, so that its `hold_node`
is not linked twice. -/
def TakesFree (k : Kernel) : Call → Prop
  | .lockExit m ret => ret = .ok → (k.mutex m).owner = none
  | _ => True

instance (k : Kernel) (call : Call) : Decidable (TakesFree k call) := by
  unfold TakesFree
  split <;> infer_instance

def StepSafe (c : Cfg) (k : Kernel) (l : Label) : Prop :=
  StepKeeps c k l ∧ MemSafe c k l ∧ (l = .cs → ∀ t ∈ running k, TakesFree k (k.wait t).call)
  deriving Decidable

theorem Intact.step (h : Intact c ∅ k) {l : Label} (hs : StepKeeps c k l)
    (hk : step c k l = some k') : Intact c ∅ k' := by
  have hrun : ∀ {t}, running k = some t → (k.thr t).Runnable := fun ht =>
    .inr (running_eq_some.mp ht).2
  cases move_of_step hk with
  | tick => exact h.tick (hs.1 rfl)
  | switch => exact h.switch
  | wake hw => exact h.wake (notMem_empty _) (h.parked.blocked _ _ hw) _
  | create => exact h.create _
  | createDl => exact h.createDl _ _ _
  | mutexCreate | enableKill => exact h.of_sync rfl rfl (fun _ => rfl) rfl
  | lockFirst => exact h.lockFirst _
  | lockSemAcquire => exact h.lockSemAcquire _
  | lockSemTake hr => exact h.lockSemTake (hrun hr) _
  | lockUnparked => exact h.lockUnparked
  | lockSemRelease => exact h.lockSemRelease _
  | lockLast => exact h.lockLast _
  | lockEnd => exact h.lockEnd
  | unlockGive => exact h.unlockGive
  | unparked => exact h.waitDone.setCall _ _
  | resumed hr hc => exact (h.resume (hc ▸ hs.2 rfl _ hr : TestHolds k (.resume _))).setCall _ _
  | deleted hr hc => exact (h.delete (hc ▸ hs.2 rfl _ hr : TestHolds k (.delete _))).setCall _ _
  | recomputed => exact (h.propagate _ _ _).setCall _ _
  | stale | resume | delete => exact h.setCall _ _
  | lock => exact h.lockBegin _
  | unlock => exact h.unlockFirst
  | mutexDelete => exact h.deleteCommon _
  | delay hr => exact h.delay (hrun hr) _
  | park hr _ h0 => exact (h.park (hrun hr) _ h0 _).setCall _ _
  | jobFinish => exact h.jobFinish
  | exit hr => exact h.exit (hrun hr)
  | suspend => exact h.suspend
  | setPriority => exact (h.setPriority _).setCall _ _
  | setDeadline => exact (h.setDeadline _).setCall _ _
  | setBandwidth => exact h.setBandwidth _ _
  | reap => exact h.reap

theorem intact_isInvariant (c : Cfg) : ((kernel c).restrict (StepSafe c)).IsInvariant (Intact c ∅) where
  init _ hk := hk ▸ intact_boot c
  step _ _ _ h hs := h.step hs.1.1 hs.2

end run

/-- What the scheduler's lists promise: a node is on at most one list, a READY or RUNNING
thread once on its own ready list, a thread with a wheel slot once in that slot and
BLOCKED, and the bitmap shows the levels in use. -/
structure ListIntegrity (c : Cfg) (s : Sched) : Prop where
  one : ∀ t h h', t ∈ s.lists h → t ∈ s.lists h' → h = h'
  once : ∀ t h, (s.lists h).count t ≤ 1
  ready : ∀ t, (s.thr t).Runnable →
    (s.lists (if dlScheduled c (s.thr t) then .dl else .ready (s.thr t).priority)).count t = 1
  slot : ∀ t, (s.thr t).wheelSlot < c.tickWheel →
    (s.lists (.wheel (s.thr t).wheelSlot)).count t = 1 ∧ (s.thr t).state = .blocked
  bitmap : ∀ p, s.gPriority.getLsbD p = true ↔ s.lists (.ready p) ≠ []

theorem Linked.listIntegrity {c : Cfg} {s : Sched} (h : Linked c ∅ s) : ListIntegrity c s where
  one t h₁ h₂ hm₁ hm₂ := by
    rw [h.mem_iff _ _ (notMem_empty t)] at hm₁ hm₂
    exact Option.some.inj (hm₁.symm.trans hm₂)
  once t l := nodup_iff_count_le_one.mp (h.nodup l) t
  ready t hr := by
    refine count_eq_one_of_mem (h.nodup _) ((h.mem_iff _ _ (notMem_empty t)).mpr ?_)
    rw [home_runnable hr]
    split <;> rfl
  slot t hw := by
    have hb := h.slot_blocked t (notMem_empty t) hw
    refine ⟨count_eq_one_of_mem (h.nodup _) ((h.mem_iff _ _ (notMem_empty t)).mpr ?_), hb⟩
    rw [home_blocked hb, if_pos hw]
  bitmap := h.bitmap

/-- In every run whose steps are `StepSafe` the lists keep their promise, at every point
where interrupts are enabled. -/
theorem listIntegrity_of_reachable (c : Cfg) (k : Kernel)
    (hr : ((kernel c).restrict (StepSafe c)).Reachable k) : ListIntegrity c k.toSched :=
  ((intact_isInvariant c).holds hr).linked.listIntegrity

/-- Two DL threads, one throttled and one delayed, each in its slot. -/
theorem listIntegrity_of_reachable_switched : ∃ k : Kernel,
    (k.lists (.wheel 4) = [1] ∧ k.lists (.wheel 6) = [0]) ∧
      ListIntegrity (Cfg.build false true) k.toSched := by
  obtain ⟨k, hk, hp⟩ := kernel_execOk (Cfg.build false true) (StepSafe (Cfg.build false true))
    [.createDl 1 8 8, .createDl 1 4 8, .switch, .park 0 (-1), .switch, .tick, .wake 1 true,
      .delay 5, .switch, .tick, .tick]
    (fun k => k.lists (.wheel 4) = [1] ∧ k.lists (.wheel 6) = [0]) (by decide +kernel)
  exact ⟨k, hp, listIntegrity_of_reachable _ k hk⟩

/-- A tick between `mini_os_schedule_delay` and the context switch charges the thread that
is in the wheel already; its budget runs out and it is linked there a second time. -/
theorem listIntegrity_fails_in_park_window : ¬ ∀ k, (kernel (Cfg.build false true)).Reachable k →
      ListIntegrity (Cfg.build false true) k.toSched := by
  intro h
  obtain ⟨k, hk, h1, h2⟩ := kernel_exec (Cfg.build false true)
    [.createDl 1 8 8, .createDl 1 4 8, .switch, .park 0 (-1), .switch, .tick, .wake 1 true,
      .delay 5, .tick]
    (fun k => 0 ∈ k.lists (.wheel 6) ∧ 0 ∈ k.lists (.wheel 8)) (by decide +kernel)
  exact absurd ((h k hk).one 0 _ _ h1 h2) (by decide)

end MiniTree.Os
