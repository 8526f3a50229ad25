import MiniTree.Os.ExclusionRun

/-!
# Priority inheritance

A thread parked on a mutex waits for the mutex's owner. `Ranked` says that no owner runs
less urgently than a thread that waits for it, and that a thread without a mutex runs at
its base priority; `but` exempts one thread, whose priority is about to be computed.

`mini_os_mutex_propagate` computes that priority from the wait lists of the mutexes the
thread holds and goes on to the thread it waits for, which is then the exempted one, until
it comes to a thread that is not parked. It follows `wait_mutex`, so `Aimed` says that the
field names the mutex of the wait list a thread is on.

**Results.** `Ranked.propagate`: over a chain the loop bound covers, nobody is exempted
afterwards.
-/

namespace MiniTree.Os

open MiniTree.Core List

/-! ## The order -/

/-- Urgency: who waits for whom, and who holds nothing. -/
structure Ranked (c : Cfg) (y : Sync) (s : Sched) (but : Option Tid) : Prop where
  edge : ∀ m o w, (y.mutex m).owner = some o → some o ≠ but → w ∈ y.waiters (.mutex m) →
    (s.thr o).priority ≤ (s.thr w).priority
  base : ∀ t, some t ≠ but → (s.thr t).state ≠ .terminated → (y.wait t).holdList = [] →
    (s.thr t).priority = (s.thr t).basePriority
  base_lt : ∀ t, (s.thr t).basePriority < c.priority

/-- `wait_mutex` of a parked thread names the mutex it is parked on. -/
def AimedAt (y : Sync) : Prop := ∀ m w, w ∈ y.waiters (.mutex m) → (y.wait w).waitMutex = some m

/-- The chain of owners that starts with `t` has at most `n` threads. -/
def chainEnds (y : Sync) : Nat → Tid → Bool
  | 0, _ => false
  | n + 1, t => match (waitedMutex y t).bind fun m => (y.mutex m).owner with
    | none => true
    | some o => chainEnds y n o

theorem Ranked.mono {c : Cfg} {y : Sync} {s : Sched} {but : Option Tid} (h : Ranked c y s none) :
    Ranked c y s but where
  edge m o w ho _ hw := h.edge m o w ho (by simp) hw
  base t _ hs hh := h.base t (by simp) hs hh
  base_lt := h.base_lt

/-! ## One round of the loop -/

variable {start : Option Tid} {e : Nat}

section round

variable {c : Cfg} {y : Sync} {s : Sched} {t : Tid}

theorem priorityApply_priority {p : Nat} (hp : p < c.priority) (u : Tid) :
    ((threadPriorityApply c s t p).thr u).priority = if u = t then p else (s.thr u).priority := by
  unfold threadPriorityApply
  simp only
  split
  · rename_i he
    split
    · rename_i hu
      rw [hu, he.resolve_left (not_le.mpr hp)]
    · rfl
  split
  · rename_i hr
    split
    · rename_i hu
      subst hu
      simp [relink_thr_self (f := fun x => { x with priority := p }) hr hp]
    · rename_i hu
      rw [relink_thr_ne hp hu]
  · rw [modT_thr]
    split <;> rfl

theorem deadlineApply_priority (h : Linked c ∅ s) (d : BitVec 32) (u : Tid) :
    ((threadDeadlineApply c s t d).thr u).priority = (s.thr u).priority := by
  unfold threadDeadlineApply
  simp only
  split
  · rfl
  split
  · rename_i hr
    by_cases hu : u = t
    · subst hu
      simp [relink_thr_self (f := fun x => { x with dlDeadlineInherit := d }) hr.2 (h.prio_lt u)]
    · rw [relink_thr_ne (h.prio_lt t) hu]
  · rw [modT_thr]
    split
    · rename_i hu
      rw [hu]
    · rfl

theorem foldl_min_le {α : Type} (f : α → Nat) (l : List α) (n : Nat) :
    l.foldl (fun b a => min b (f a)) n ≤ n ∧ ∀ a ∈ l, l.foldl (fun b a => min b (f a)) n ≤ f a := by
  induction l generalizing n with
  | nil => simp
  | cons a l ih =>
    obtain ⟨h1, h2⟩ := ih (min n (f a))
    refine ⟨h1.trans (min_le_left ..), fun b hb => ?_⟩
    rcases mem_cons.mp hb with rfl | hb
    · exact h1.trans (min_le_right ..)
    · exact h2 b hb

/-- The required priority is at least as urgent as the base and as every waiter. -/
theorem requiredPriority_le : mutexRequiredPriority c y s t ≤ (s.thr t).basePriority ∧
    ∀ m ∈ (y.wait t).holdList, ∀ w ∈ y.waiters (.mutex m),
      mutexRequiredPriority c y s t ≤ (s.thr w).priority := by
  obtain ⟨h1, h2⟩ := foldl_min_le (mutexHighestWaiter c y s) (y.wait t).holdList
    (s.thr t).basePriority
  refine ⟨h1, fun m hm w hw => (h2 m hm).trans ?_⟩
  exact (foldl_min_le (fun w => (s.thr w).priority) (y.waiters (.mutex m)) c.priority).2 w hw

/-- What one round writes: the thread's priority is the required one, all others stay. -/
theorem propagateOne_priority (h : Linked c ∅ s) (hb : (s.thr t).basePriority < c.priority) (e : Nat)
    (d : BitVec 32) (u : Tid) : ((propagateOne c y s t e d).1.thr u).priority =
      if u = t then min (mutexRequiredPriority c y s t) e else (s.thr u).priority := by
  have hp : min (mutexRequiredPriority c y s t) e < c.priority :=
    lt_of_le_of_lt ((min_le_left ..).trans requiredPriority_le.1) hb
  have h1 := h.priorityApply (Set.notMem_empty t) (min (mutexRequiredPriority c y s t) e)
  unfold propagateOne
  simp only [applyPriority_eq, applyDeadline_eq]
  split
  · rw [deadlineApply_priority h1, priorityApply_priority hp]
  · exact priorityApply_priority hp u

theorem waitedMutex_eq {m : Mid} (hp : Parked y s) (ha : AimedAt y)
    (hw : t ∈ y.waiters (.mutex m)) : waitedMutex y t = some m := by
  unfold waitedMutex
  rw [ha m t hw]
  simp [(hp.mem_iff _ _).mp hw]

/-- A round passes the exemption on to the thread that `t` waits for. -/
theorem Ranked.round (h : Ranked c y s (some t)) (hl : Linked c ∅ s) (hp : Parked y s)
    (ha : AimedAt y) (hown : ∀ m o, (y.mutex m).owner = some o → m ∈ (y.wait o).holdList)
    (he : (y.wait t).holdList = [] → (s.thr t).basePriority ≤ e) (d : BitVec 32) :
    Ranked c y (propagateOne c y s t e d).1 ((waitedMutex y t).bind fun m => (y.mutex m).owner) := by
  have hprio := propagateOne_priority (y := y) hl (h.base_lt t) e d
  have hkept := (propagateOne_linked (y := y) hl t e d).2
  constructor
  · intro m o w ho hne hw
    rw [hprio, hprio]
    by_cases hot : o = t
    · subst hot
      rw [if_pos rfl]
      split
      · exact le_rfl
      · exact (min_le_left ..).trans (requiredPriority_le.2 m (hown m o ho) w hw)
    rw [if_neg hot]
    split
    · rename_i hwt
      subst hwt
      rw [waitedMutex_eq hp ha hw, Option.bind_some, ho] at hne
      exact absurd rfl hne
    · exact h.edge m o w ho (by simpa using hot) hw
  · intro u hu hs hh
    rw [hprio, hkept.base]
    rw [hkept.state] at hs
    split
    · rename_i hut
      subst hut
      have hreq : mutexRequiredPriority c y s u = (s.thr u).basePriority := by
        simp [mutexRequiredPriority, hh]
      rw [hreq]
      exact min_eq_left (he hh)
    · rename_i hut
      exact h.base u (by simpa using hut) hs hh
  · intro u
    rw [hkept.base]
    exact h.base_lt u

end round

/-! ## The loop -/

section loop

variable {c : Cfg} {y y' : Sync} {s : Sched} {t : Tid}

theorem propagateLoop_none (n : Nat) (s : Sched) (e : Nat) (d : BitVec 32) :
    propagateLoop c y n s none e d = s := by cases n <;> rfl

/-- Each round moves the exemption one owner further; the chain ends inside the bound. -/
theorem Ranked.loop (hp : ∀ s', Reranked s s' → Parked y s') (ha : AimedAt y)
    (hown : ∀ m o, (y.mutex m).owner = some o → m ∈ (y.wait o).holdList) :
    ∀ (n : Nat) (s' : Sched) (t : Tid) (e : Nat) (d : BitVec 32), Reranked s s' →
      Ranked c y s' (some t) → Linked c ∅ s' → chainEnds y n t = true →
      ((y.wait t).holdList = [] → (s'.thr t).basePriority ≤ e) →
      Ranked c y (propagateLoop c y n s' (some t) e d) none := by
  intro n
  induction n with
  | zero =>
    intro s' t e d _ _ _ hn
    cases hn
  | succ n ih =>
    intro s' t e d hs h hl hn he
    have hlr := propagateOne_linked (y := y) hl t e d
    have hr := h.round hl (hp s' hs) ha hown he d
    unfold propagateLoop
    unfold chainEnds at hn
    cases hw : waitedMutex y t with
    | none =>
      rw [hw] at hr
      exact hr
    | some m =>
      rw [hw, Option.bind_some] at hr hn
      dsimp only
      cases ho : (y.mutex m).owner with
      | none =>
        rw [ho] at hr
        rw [propagateLoop_none]
        exact hr
      | some o =>
        rw [ho] at hr hn
        refine ih _ o _ _ (hs.trans hlr.2) hr hlr.1 hn fun hnil => ?_
        have := hown m o ho
        rw [hnil] at this
        cases this

/-- `mini_os_mutex_propagate` from a thread whose chain is short enough leaves everybody
in order, the thread it starts with included. -/
theorem Ranked.propagate (hl : Linked c ∅ s) (hp : Parked y s) (ha : AimedAt y)
    (hown : ∀ m o, (y.mutex m).owner = some o → m ∈ (y.wait o).holdList) (h : Ranked c y s start)
    (d : BitVec 32) (hc : ∀ t ∈ start, chainEnds y c.piChainMax t = true)
    (he : ∀ t ∈ start, (y.wait t).holdList = [] → (s.thr t).basePriority ≤ e) :
    Ranked c y (mutexPropagate c y s start e d) none := by
  unfold mutexPropagate
  cases start with
  | none =>
    rw [propagateLoop_none]
    exact h
  | some t =>
    have hpk : ∀ s', Reranked s s' → Parked y s' := fun s' hs =>
      ⟨hp.nodup, hp.mem_iff, fun u w hu => (hs.state u).trans (hp.blocked u w hu)⟩
    exact Ranked.loop hpk ha hown _ s t e d (.refl s) h hl (hc t rfl) (he t rfl)

theorem chainEnds_mono (hw : ∀ t m, waitedMutex y' t = some m → waitedMutex y t = some m)
    (ho : ∀ m o, (y'.mutex m).owner = some o → (y.mutex m).owner = some o) :
    ∀ (n : Nat) (t : Tid), chainEnds y n t = true → chainEnds y' n t = true := by
  intro n
  induction n with
  | zero =>
    intro t h
    cases h
  | succ n ih =>
    intro t h
    unfold chainEnds at h ⊢
    cases hb' : (waitedMutex y' t).bind fun m => (y'.mutex m).owner with
    | none => rfl
    | some o =>
      obtain ⟨m, hm, hmo⟩ := Option.bind_eq_some_iff.mp hb'
      rw [hw t m hm, Option.bind_some, ho m o hmo] at h
      exact ih o h

theorem chainEnds_of_idle {n : Nat} (hn : 0 < n) (hw : waitedMutex y t = none) :
    chainEnds y n t = true := by
  obtain ⟨n, rfl⟩ := Nat.exists_eq_succ_of_ne_zero hn.ne'
  unfold chainEnds
  rw [hw]
  rfl

end loop

/-! ## Steps that change no rank -/

/-- Nobody's priority changes, and a terminated thread stays one. -/
structure SameRank (s s' : Sched) : Prop where
  prio : ∀ t, (s'.thr t).priority = (s.thr t).priority
  base : ∀ t, (s'.thr t).basePriority = (s.thr t).basePriority
  dead : ∀ t, (s.thr t).state = .terminated → (s'.thr t).state = .terminated

namespace SameRank

variable {c : Cfg} {s s' s'' : Sched} {t : Tid} {f : Tcb → Tcb}

theorem of_thr (h : s'.thr = s.thr) : SameRank s s' :=
  ⟨fun _ => by rw [h], fun _ => by rw [h], fun _ hd => by rw [h, hd]⟩

theorem refl (s : Sched) : SameRank s s := of_thr rfl

theorem trans (h : SameRank s s') (h' : SameRank s' s'') : SameRank s s'' :=
  ⟨fun t => (h'.prio t).trans (h.prio t), fun t => (h'.base t).trans (h.base t),
    fun t hd => h'.dead t (h.dead t hd)⟩

/-- One TCB is written; `s'` may differ from the result in its lists. -/
theorem write (h : s'.thr = (s.modT t f).thr) (hp : (f (s.thr t)).priority = (s.thr t).priority)
    (hb : (f (s.thr t)).basePriority = (s.thr t).basePriority)
    (hd : (s.thr t).state = .terminated → (f (s.thr t)).state = .terminated) : SameRank s s' := by
  refine ⟨fun u => ?_, fun u => ?_, fun u => ?_⟩ <;>
  · rw [h, modT_thr]
    split
    · rename_i hu
      subst hu
      assumption
    · first | rfl | exact id

theorem account (hf : Accounted (s.thr t) (f (s.thr t))) : SameRank s (s.modT t f) :=
  write rfl hf.priority hf.base fun hd => hf.state.trans hd

theorem remove : SameRank s (removeThreadFromReadyRunningList c s t) := of_thr remove_thr

theorem add (hd : (s.thr t).state ≠ .terminated) : SameRank s (addThreadToReadyRunningList c s t) := by
  by_cases hr : (s.thr t).Runnable
  · rw [add_of_runnable hr]
    exact refl s
  by_cases hp : (s.thr t).priority < c.priority
  · exact write (add_thr hr hp) (readied_rank ..).1
      (readied_rank ..).2.1 fun h => absurd h hd
  have he : addThreadToReadyRunningList c s t = s := by
    unfold addThreadToReadyRunningList
    simp only [not_lt.mp hp, or_true, if_true]
  rw [he]
  exact refl s

theorem wheelInsert (hd : (s.thr t).state ≠ .terminated) (n : Nat) :
    SameRank s (wheelInsert c s t n) := by
  unfold Os.wheelInsert
  split
  · exact refl s
  · exact write (listTail_thr ..) rfl rfl fun h => absurd h hd

theorem wheelRemove : SameRank s (wheelRemove c s t) := by
  unfold Os.wheelRemove
  split
  · exact refl s
  · exact write (f := fun x => { x with round := 0, wheelSlot := c.tickWheel }) rfl rfl rfl id

end SameRank

/-! ## The invariant -/

/-- The call is inside a lock of `m` and has not come back from the wait. -/
def LocksOn (m : Mid) : Call → Prop
  | .lockEnter m' _ | .lockTake m' _ | .lockWait m' _ | .lockParked m' => m' = m
  | _ => False

/-- Everybody but `but` is in order; a mutex with waiters has no unit in its count. -/
structure Inherits (c : Cfg) (k : Kernel) (but : Option Tid) : Prop where
  aimed : AimedAt k.toSync
  idle : ∀ m w, w ∈ k.waiters (.mutex m) → (k.mutex m).count = 0
  named : ∀ t m, LocksOn m (k.wait t).call → m < k.nMutex
  ranked : Ranked c k.toSync k.toSched but

/-- From `y` to `y'` nobody starts to wait, no mutex that is waited for gets a new owner or
a unit, and nobody but `but` comes to hold nothing. -/
structure WaitsKept (y y' : Sync) (nM : Nat) (but : Option Tid) : Prop where
  sub : ∀ m w, w ∈ y'.waiters (.mutex m) → w ∈ y.waiters (.mutex m)
  aim : ∀ m w, w ∈ y'.waiters (.mutex m) → (y'.wait w).waitMutex = (y.wait w).waitMutex
  owner : ∀ m o, y'.waiters (.mutex m) ≠ [] → some o ≠ but → (y'.mutex m).owner = some o →
    (y.mutex m).owner = some o
  count : ∀ m, y'.waiters (.mutex m) ≠ [] → (y'.mutex m).count ≤ (y.mutex m).count
  hold : ∀ t, some t ≠ but → (y'.wait t).holdList = [] → (y.wait t).holdList = []
  named : ∀ t m, LocksOn m (y'.wait t).call → LocksOn m (y.wait t).call ∨ m < nM

theorem WaitsKept.refl (y : Sync) (nM : Nat) (but : Option Tid) : WaitsKept y y nM but :=
  ⟨fun _ _ => id, fun _ _ _ => rfl, fun _ _ _ _ => id, fun _ _ => le_rfl, fun _ _ => id,
    fun _ _ => .inl⟩

theorem WaitsKept.trans {y y' y'' : Sync} {nM : Nat} {but : Option Tid}
    (h : WaitsKept y y' nM but) (h' : WaitsKept y' y'' nM but) : WaitsKept y y'' nM but where
  sub m w hw := h.sub m w (h'.sub m w hw)
  aim m w hw := (h'.aim m w hw).trans (h.aim m w (h'.sub m w hw))
  owner m o hw hb ho := by
    obtain ⟨w, hmem⟩ := exists_mem_of_ne_nil _ hw
    exact h.owner m o (ne_nil_of_mem (h'.sub m w hmem)) hb (h'.owner m o hw hb ho)
  count m hw := by
    obtain ⟨w, hmem⟩ := exists_mem_of_ne_nil _ hw
    exact (h'.count m hw).trans (h.count m (ne_nil_of_mem (h'.sub m w hmem)))
  hold t hb hh := h.hold t hb (h'.hold t hb hh)
  named t m hl := (h'.named t m hl).elim (h.named t m) .inr

section write

variable {y : Sync} {nM : Nat} {but : Option Tid} {t : Tid} {m : Mid}

theorem WaitsKept.modW {f : SyncTcb → SyncTcb}
    (ha : (∀ m, t ∉ y.waiters (.mutex m)) ∨ (f (y.wait t)).waitMutex = (y.wait t).waitMutex)
    (hh : some t ≠ but → (f (y.wait t)).holdList = [] → (y.wait t).holdList = [])
    (hn : ∀ m, LocksOn m (f (y.wait t)).call → LocksOn m (y.wait t).call ∨ m < nM) :
    WaitsKept y (y.modW t f) nM but := by
  refine ⟨fun _ _ => id, fun m w hw => ?_, fun _ _ _ _ => id, fun _ _ => le_rfl, fun u hu => ?_,
    fun u m => ?_⟩ <;> rw [modW_wait] <;> split <;> rename_i hut
  · subst hut
    exact ha.resolve_left fun hno => hno m hw
  · rfl
  · subst hut
    exact hh hu
  · exact id
  · subst hut
    exact hn m
  · exact .inl

theorem WaitsKept.modM {f : Mutex → Mutex}
    (ho : y.waiters (.mutex m) ≠ [] → ∀ o, some o ≠ but → (f (y.mutex m)).owner = some o →
      (y.mutex m).owner = some o)
    (hc : y.waiters (.mutex m) ≠ [] → (f (y.mutex m)).count ≤ (y.mutex m).count) :
    WaitsKept y (y.modM m f) nM but := by
  refine ⟨fun _ _ => id, fun _ _ _ => rfl, fun m' o hw hb => ?_, fun m' hw => ?_, fun _ _ => id,
    fun _ _ => .inl⟩ <;> simp only [Sync.modM, Function.update_apply] <;> split <;> rename_i hm
  · subst hm
    exact ho hw o hb
  · exact id
  · subst hm
    exact hc hw
  · exact le_rfl

end write

section frame

variable {c : Cfg} {k k' : Kernel} {but : Option Tid} {t : Tid}

theorem Inherits.mono (h : Inherits c k none) : Inherits c k but :=
  { h with ranked := h.ranked.mono }

theorem Inherits.frame (h : Inherits c k but) (hw : WaitsKept k.toSync k'.toSync k'.nMutex but)
    (hn : k.nMutex ≤ k'.nMutex) (hs : SameRank k.toSched k'.toSched) : Inherits c k' but where
  aimed m w hmem := (hw.aim m w hmem).trans (h.aimed m w (hw.sub m w hmem))
  idle m w hmem := by
    have h0 := h.idle m w (hw.sub m w hmem)
    have hle := hw.count m (ne_nil_of_mem hmem)
    omega
  named t m hl := (hw.named t m hl).elim (fun hl => lt_of_lt_of_le (h.named t m hl) hn) id
  ranked :=
    { edge := fun m o w ho hb hmem => by
        rw [hs.prio, hs.prio]
        exact h.ranked.edge m o w (hw.owner m o (ne_nil_of_mem hmem) hb ho) hb
          (hw.sub m w hmem)
      base := fun u hb hst hh => by
        rw [hs.prio, hs.base]
        exact h.ranked.base u hb (fun hd => hst (hs.dead u hd)) (hw.hold u hb hh)
      base_lt := fun u => by
        rw [hs.base]
        exact h.ranked.base_lt u }

/-- Only the scheduler's data changes, and no rank. -/
theorem Inherits.sched (h : Inherits c k but) {s : Sched} (hs : SameRank k.toSched s) :
    Inherits c { k with toSched := s } but :=
  h.frame (.refl _ _ _) le_rfl hs

/-- Only the sync objects' data changes. -/
theorem Inherits.sync (h : Inherits c k but) {y : Sync} (hw : WaitsKept k.toSync y k.nMutex but) :
    Inherits c { k with toSync := y } but :=
  h.frame hw le_rfl (.refl _)

/-- The exempted thread is in order as well. -/
theorem Inherits.settle (h : Inherits c k (some t))
    (he : ∀ m w, (k.mutex m).owner = some t → w ∈ k.waiters (.mutex m) →
      (k.thr t).priority ≤ (k.thr w).priority)
    (hb : (k.thr t).state ≠ .terminated → (k.wait t).holdList = [] →
      (k.thr t).priority = (k.thr t).basePriority) : Inherits c k none := by
  refine { h with ranked := ⟨fun m o w ho _ hw => ?_, fun u _ hs hh => ?_, h.ranked.base_lt⟩ }
  · by_cases hot : o = t
    · subst hot
      exact he m w ho hw
    · exact h.ranked.edge m o w ho (by simpa using hot) hw
  · by_cases hut : u = t
    · subst hut
      exact hb hs hh
    · exact h.ranked.base u (by simpa using hut) hs hh

theorem Inherits.propagate (h : Inherits c k start) (hi : Intact c ∅ k)
    (hown : ∀ m o, (k.mutex m).owner = some o → m ∈ (k.wait o).holdList) (d : BitVec 32)
    (hc : ∀ t ∈ start, chainEnds k.toSync c.piChainMax t = true)
    (he : ∀ t ∈ start, (k.wait t).holdList = [] → (k.thr t).basePriority ≤ e) :
    Inherits c { k with toSched := mutexPropagate c k.toSync k.toSched start e d } none :=
  { h with ranked := .propagate hi.linked hi.parked h.aimed hown h.ranked d hc he }

variable {call : Call}

/-- A call moves on; it starts no lock of a mutex that does not exist. -/
theorem Inherits.setCall (h : Inherits c k but)
    (hc : ∀ m, LocksOn m call → m < k.nMutex) : Inherits c (k.setCall t call) but :=
  h.sync (.modW (.inr rfl) (fun _ => id) fun m hl => .inr (hc m hl))

/-- A call begins or goes on outside a lock. -/
theorem Inherits.leave (h : Inherits c k but) (hc : ∀ m, ¬ LocksOn m call) :
    Inherits c (k.setCall t call) but :=
  h.setCall fun m hl => absurd hl (hc m)

end frame

end MiniTree.Os
