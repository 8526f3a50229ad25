import MiniTree.Os.InheritanceMutex

/-!
# Priority inheritance in the thread API and the tick handler

`Inherits` is kept where waits end by force (`mini_os_mutex_kill_held`, a cancelled wait, a
deleted mutex, a timeout), where threads come and go, and by every change of a thread that
is none of its rank. A thread that is on its way out is the exempted one until nobody waits
for it any more.
-/

namespace MiniTree.Os

open MiniTree.Core List Nat Option Function

/-! ## Force-release -/

section kill

variable {c : Cfg} {X : Set Tid} {k : Kernel} {but : Option Tid} {t : Tid} {m : Mid}

theorem Inherits.killWaiter (h : Inherits c k but) (hp : ∀ w, (k.waiters w).Nodup)
    (hb : (k.thr t).state = .blocked) (b : Bool) : Inherits c (killWaiter c b k t) but := by
  refine h.frame ?_ le_rfl (.wake hb)
  rw [killWaiter_toSync]
  exact .unpark hp
    fun _ => ⟨rfl, rfl⟩

theorem killFold_waiters (l : List Tid) (b : Bool) (k : Kernel) (w : WaitId) :
    (l.foldl (killWaiter c b) k).waiters w = (k.waiters w).diff l := by
  induction l generalizing k with
  | nil => exact (diff_nil _).symm
  | cons u l ih =>
    rw [foldl_cons, ih, diff_cons]
    rfl

theorem killWaiters_nil (hp : ∀ w, (k.waiters w).Nodup) :
    (mutexKillWaiters c k m).waiters (.mutex m) = [] := by
  rw [mutexKillWaiters_eq, killFold_waiters, (hp _).sdiff_eq_filter]
  simp

theorem Inherits.killWaiters (h : Inherits c k but) (hi : Intact c X k) (hc : Clear X k) (m : Mid) :
    Inherits c (mutexKillWaiters c k m) but :=
  (hi.killWaiters_keeps hc m (P := fun k => Inherits c k but) h fun b _ _ _ hi _ hb h =>
    h.killWaiter hi.parked.nodup hb b).2

/-- A mutex without waiters loses its owner. -/
theorem WaitsKept.forceRelease {y : Sync} {nM n : Nat} (hnil : y.waiters (.mutex m) = [])
    (hh : ∀ u, some u ≠ but → m ∉ (y.wait u).holdList) :
    WaitsKept y (((y.unhold m).endLocks m).modM m fun mx =>
      { mx with owner := none, depth := 0, count := n }) nM but := by
  have h1 : WaitsKept (y.unhold m) ((y.unhold m).endLocks m) nM but :=
    ⟨fun _ _ => id, fun _ _ _ => rfl, fun _ _ _ _ => id, fun _ _ => le_rfl, fun _ _ => id,
      fun _ _ => .inl⟩
  exact ((WaitsKept.unhold hh).trans h1).trans
    (.modM (fun hne => absurd hnil hne) fun hne => absurd hnil hne)

theorem Inherits.killOne (h : Inherits c k (some t)) (hi : Intact c X k) (hc : Clear X k)
    (hh : ∀ u, u ≠ t → m ∉ (k.wait u).holdList) : Inherits c (mutexKillOne c k m) (some t) := by
  have hk := Unparks.killWaiters (c := c) (k := k) (m := m)
  refine (h.killWaiters hi hc m).sync ?_
  refine .forceRelease
    (killWaiters_nil hi.parked.nodup) fun u hu => ?_
  rw [(hk.wait u).hold]
  exact hh u fun e => hu (congrArg some e)

theorem Inherits.killHeld {nT nM : Nat} (h : Inherits c k (some t)) (hi : Intact c X k)
    (hc : Clear X k) (ho : Owned k.toSync nT nM) : Inherits c (mutexKillHeld c k t) (some t) := by
  refine (hi.killHeld_keeps hc t (P := fun k' => Inherits c k' (some t) ∧
    ∀ m ∈ (k.wait t).holdList, ∀ u, u ≠ t → m ∉ (k'.wait u).holdList)
    ⟨h, fun m hm u hu hmu => hu ?_⟩ fun k' m hm hi hc hk => ⟨hk.1.killOne hi hc (hk.2 m hm),
      fun m' hm' u hu => ?_⟩).2.1
  · rw [ho.hold] at hm hmu
    exact some.inj (hmu.symm.trans hm)
  · rw [killOne_holdList]
    exact fun hmem => hk.2 m' hm' u hu (mem_of_mem_erase hmem)

theorem Inherits.requestDestroy (h : Inherits c k none)
    (ha : (k.mutex m).obj.kill = true → (k.mutex m).obj.timeout = true)
    (ho : (k.mutex m).owner = none) :
    Inherits c { k with toSync := k.toSync.modM m mutexRequestDestroy } none := by
  obtain ⟨hc, -, hn, -⟩ := requestDestroy_kept _ ha ho
  refine h.sync (.modM (fun _ o _ hown => ?_) fun _ => hc)
  rw [hn] at hown
  cases hown

/-- A deleted mutex is taken from its owner, who is recomputed. -/
theorem Inherits.deleteCommon (h : Inherits c k none) (hx : Exclusive c k) (hs : ShortChains c k)
    (isStatic : Bool) : Inherits c (mutexDeleteCommon c k m isStatic).2 none := by
  unfold Os.mutexDeleteCommon
  split
  · simp only
    split
    · have hcl := clear_empty k
      obtain ⟨-, hmx, hw, -⟩ := Unparks.killWaiters
      have hold := fun u => (hw u).hold
      have hnil := killWaiters_nil (c := c) (m := m) hx.intact.parked.nodup
      have hsub : ∀ w v, v ∈ (mutexKillWaiters c k m).waiters w → v ∈ k.waiters w := fun w v hv => by
        rw [mutexKillWaiters_eq, killFold_waiters] at hv
        exact diff_subset _ _ hv
      have hkept : ∀ u, (k.wait u).waitList ≠ some (.mutex m) →
          (mutexKillWaiters c k m).wait u = k.wait u := fun u hu =>
        (killWaiters_kept hx.intact hcl m hu).2
      have hi := hx.intact.killWaiters hcl m
      have h1 := h.killWaiters hx.intact hcl m
      generalize mutexKillWaiters c k m = k1 at hmx hold hnil hsub hkept hi h1 ⊢
      -- the sync half without the mutex
      let y := ((k1.toSync.unhold m).endLocks m).modM m fun mx => { mx with owner := none, depth := 0 }
      have hyo : ∀ m' o, (y.mutex m').owner = some o → m' ≠ m ∧ (k.mutex m').owner = some o := by
        intro m' o ho
        simp only [y, Sync.modM, update_apply] at ho
        split at ho
        · cases ho
        · rename_i hne
          exact ⟨hne, (congrArg Mutex.owner (congrFun hmx m')).symm.trans ho⟩
      have h2 : Inherits c { k1 with toSync := y } (k1.mutex m).owner := by
        refine h1.mono.sync (.forceRelease hnil fun u hu hm => hu ?_)
        rw [hold, hx.owned.hold] at hm
        rw [hmx, hm]
      have hi2 : Intact c ∅ { k1 with toSync := y } := hi.of_sync rfl rfl (fun _ => rfl) rfl
      refine Inherits.requestDestroy ?_ ?_ ?_
      · refine Inherits.propagate h2 hi2
          (fun m' o ho => ?_) _ (fun u hu => ?_) fun u _ _ => (h1.ranked.base_lt u).le
        · obtain ⟨hne, ho⟩ := hyo m' o ho
          refine (mem_erase_of_ne hne).mpr ?_
          rw [hold, hx.owned.hold, ho]
        · rw [hmx] at hu
          refine hs.sub (fun v => ?_) (fun m' o ho => (hyo m' o ho).2) (hx.owned.owner_lt hu)
          -- whoever still waits was not waiting for `m`
          cases hv : (k1.wait v).waitList with
          | none => exact .inl hv
          | some w =>
            have hmem := (hi.parked.mem_iff w v).mpr hv
            have hw := (hx.intact.parked.mem_iff w v).mp (hsub w v hmem)
            have hne : (k.wait v).waitList ≠ some (.mutex m) := by
              intro he
              rw [hw] at he
              cases he
              rw [hnil] at hmem
              cases hmem
            refine .inr (.inr ?_)
            change (k1.wait v).waitMutex = _ ∧ (k1.wait v).waitList = _
            rw [hkept v hne]
            exact ⟨rfl, rfl⟩
      · simp only [Sync.modM, update_self]
        change (k1.mutex m).obj.kill = true → (k1.mutex m).obj.timeout = true
        rw [hmx]
        exact hx.owned.armed m
      · simp [Sync.modM]
    · rename_i hidle
      exact h.requestDestroy (hx.owned.armed m) (not_not.mp fun ho => hidle (.inr ho))
  · exact h

end kill

/-! ## Threads -/

section thread

variable {c : Cfg} {k : Kernel} {t : Tid} {s : Sched}

namespace Inherits

/-- The wait of `t` is cancelled and the owner it waited for is recomputed. -/
theorem cancelWait (h : Inherits c k none) (hi : Intact c ∅ k)
    (ho : Owned k.toSync k.nThread k.nMutex) (hs : ShortChains c k) {f : SyncTcb → SyncTcb}
    (hf : ∀ x, (f x).waitList = x.waitList ∧ (f x).holdList = x.holdList ∧ (f x).call = x.call) :
    Inherits c (cancelWait c k t f) none := by
  unfold Os.cancelWait
  split
  · exact h
  rename_i hw
  obtain ⟨w, hw⟩ := ne_none_iff_exists'.mp hw
  simp only
  let y := (k.toSync.waitUnlink t).modW t fun x => f { x with waitList := none, waitMutex := none }
  have h1 : Inherits c { k with toSync := y } none :=
    h.sync (.unpark hi.parked.nodup fun _ => ⟨(hf _).2.1, (hf _).2.2⟩)
  have hi1 : Intact c ∅ { k with toSync := y } :=
    hi.unpark (hf _).1 hi.linked
      (fun _ _ => rfl) (by rw [hi.parked.blocked t w hw]; simp)
  have hyw : ∀ u, (y.wait u).holdList = (k.wait u).holdList := by
    intro u
    simp only [y, modW_wait, waitUnlink_wait]
    split
    · rename_i hu
      rw [(hf _).2.1, hu]
    · rfl
  have hown : ∀ m o, (y.mutex m).owner = some o → m ∈ (y.wait o).holdList := by
    intro m o hm
    rw [hyw, ho.hold]
    exact hm
  refine Inherits.propagate h1.mono hi1 hown _
    (fun u hu => ?_) fun u _ _ => (h.ranked.base_lt u).le
  obtain ⟨m, -, hm⟩ := bind_eq_some_iff.mp hu
  refine hs.sub (fun v => ?_) (fun _ _ => id) (ho.owner_lt hm)
  simp only [y, modW_wait, waitUnlink_wait]
  split
  · exact .inl (hf _).1
  · exact .inr (.inr ⟨rfl, rfl⟩)

theorem suspend (h : Inherits c k none) (hx : Exclusive c k) (hs : ShortChains c k) :
    Inherits c (threadSuspend c k t).2 none := by
  have hrun : (k.thr t).Runnable → Inherits c { k with
      toSched := (removeThreadFromReadyRunningList c k.toSched t).modT t
        fun x => { x with state := .suspended } } none := fun hr =>
    h.sched (SameRank.remove.trans (.write rfl rfl rfl fun hd => absurd (by rwa [remove_thr] at hd)
      hr.alive))
  unfold threadSuspend
  split
  · exact h
  · rename_i hst
    exact hrun (.inl hst)
  · rename_i hst
    exact hrun (.inr hst)
  · rename_i hst
    simp only
    have h1 : Inherits c { k with
        toSched := k.toSched.modT t fun x => { x with resumeTime := wheelRemain c k.toSched t } } none :=
      h.sched (.write rfl rfl rfl id)
    have hi1 := hx.intact.modT
      (f := fun x => { x with resumeTime := wheelRemain c k.toSched t })
      (home_congr rfl rfl rfl rfl rfl) (hx.intact.linked.prio_lt t) rfl rfl
    have h2 : Inherits c (suspendWait c k t) none :=
      h1.cancelWait hi1 hx.owned hs fun _ => ⟨rfl, rfl, rfl⟩
    refine h2.sched (.write (f := fun x =>
      { x with wheelSlot := c.tickWheel, round := 0, state := .suspended }) rfl rfl rfl fun hd => ?_)
    rw [(hx.intact.suspendWait hst).2.2] at hd
    cases hd
  · exact h

/-- A thread nobody waits for is set up, or given back, under the exemption. -/
theorem renew (h : Inherits c k (some t)) (hs : ∀ u, u ≠ t → s.thr u = k.thr u)
    (hw : ∀ m, t ∉ k.waiters (.mutex m)) (ho : ∀ m, (k.mutex m).owner = some t → (s.thr t).priority = 0)
    (hb : (s.thr t).priority = (s.thr t).basePriority) (hlt : (s.thr t).basePriority < c.priority) :
    Inherits c { k with toSched := s } none := by
  refine { h with ranked := ⟨fun m o w how _ hmem => ?_, fun u _ hst hh => ?_, fun u => ?_⟩ }
  · have hwt : w ≠ t := fun e => hw m (e ▸ hmem)
    rw [hs w hwt]
    by_cases hot : o = t
    · subst hot
      rw [ho m how]
      exact zero_le _
    · rw [hs o hot]
      exact h.ranked.edge m o w how (by simpa using hot) hmem
  · by_cases hut : u = t
    · subst hut
      exact hb
    · have hu := hs u hut
      simp only [hu] at hst ⊢
      exact h.ranked.base u (by simpa using hut) hst hh
  · by_cases hut : u = t
    · subst hut
      exact hlt
    · simp only [hs u hut]
      exact h.ranked.base_lt u

/-- The storage of a thread on no wait list is given back. -/
theorem free (h : Inherits c k (some t)) (hw : ∀ m, t ∉ k.waiters (.mutex m))
    (hs : s.thr = k.thr) : Inherits c { k with toSched := s.modT t fun _ => .free c } none := by
  refine h.renew (fun u hu => ?_) hw (fun _ _ => ?_) ?_ ?_
  · rw [modT_thr_ne _ hu, hs]
  all_goals rw [modT_thr_self]
  · rfl
  · rfl
  · exact c.priority_pos

section
variable (h : Inherits c k none)
include h

theorem exit (hx : Exclusive c k) (hq : KillSafe k t) : Inherits c (threadExit c k t) none := by
  have h1 := h.mono.killHeld (t := t) hx.intact (clear_empty k) hx.owned
  obtain ⟨ho, hnil⟩ := hx.owned.killHeld hq
  have h2 : Inherits c (threadExit c k t) (some t) := by
    have hleft : SameRank (mutexKillHeld c k t).toSched (dlThreadRelease c
        (removeThreadFromReadyRunningList c (mutexKillHeld c k t).toSched t) t) :=
      .of_thr (by rw [dlThreadRelease_thr, remove_thr])
    exact h1.sched (hleft.trans (.write (listTail_thr ..) rfl rfl fun _ => rfl))
  refine h2.settle (fun m w hm _ => ?_) fun hst => ?_
  · have := (ho.hold m t).mpr hm
    rw [hnil] at this
    cases this
  · simp [threadExit] at hst

theorem unlink (hx : Exclusive c k) (hs : ShortChains c k) :
    Inherits c (threadUnlink c k t) none := by
  unfold threadUnlink
  split
  · exact h.sched .remove
  · exact h.sched .remove
  · unfold threadUnlinkBlocked
    have h1 := h.cancelWait (t := t) hx.intact hx.owned hs fun _ => ⟨rfl, rfl, rfl⟩
    simp only
    split
    · exact h1.sched .wheelRemove
    · exact h1
  · exact h

theorem delete (hx : Exclusive c k) (hs : ShortChains c k)
    (hd : DeleteSafe k t) : Inherits c (threadDelete c k t) none := by
  have h1 := h.unlink (t := t) hx hs
  obtain ⟨hi1, hw1⟩ := hx.intact.unlink hd
  have ho1 := hx.owned.unparks (.threadUnlink (c := c) (t := t))
  unfold threadDelete
  generalize threadUnlink c k t = k1 at h1 hi1 hw1 ho1
  simp only
  obtain ⟨hi2, hc2⟩ := hi1.dropRefs hw1
  have h2 : Inherits c { k1 with toSync := syncWaitRefDropAll k1.toSync t } (some t) :=
    h1.mono.sync .refDropAll
  have h3 := h2.killHeld hi2 hc2 ho1.refDropAll
  have hno := (hi2.killHeld hc2 t).no_waiter (killHeld_kept hi2 hc2 t (hc2 t rfl)).2
  generalize mutexKillHeld c _ t = k3 at h3 hno ⊢
  have h4 : Inherits c { k3 with toSync := k3.toSync.modW t fun _ => .init } (some t) :=
    h3.sync (.modW (.inl hno) (fun hne => absurd rfl hne) fun m hl => absurd hl id)
  exact h4.free hno (dlThreadRelease_thr _)

/-- The corpses on the queue are terminated threads; they wait for nothing. -/
theorem reap (hi : Intact c ∅ k) : Inherits c (threadDefunctExecute c k) none := by
  refine (hi.linked.reap_keeps (P := fun s => Inherits c { k with toSched := s } none) h
    fun s t ht _ h => h.mono.free (hi.no_waiter (hi.not_waiting ?_)) rfl).2
  rw [hi.linked.terminated_of_defunct ht]
  simp

theorem spawn (hx : Exclusive c k) (ht : s.thr = k.thr)
    {x : Tcb} (hst : x.state = .init) (hb : x.priority = x.basePriority) (hp : x.priority < c.priority) :
    Inherits c { k with
      toSched := addThreadToReadyRunningList c (s.modT k.nThread fun _ => x) k.nThread
      toSync := k.toSync.modW k.nThread fun _ => .init
      nThread := k.nThread + 1 } none := by
  have hnw := hx.intact.not_waiting (by rw [hx.intact.fresh _ le_rfl]; simp)
  have hno := hx.intact.no_waiter hnw
  have hheld := hx.owned.freshT k.nThread le_rfl
  have h1 : Inherits c { k with toSync := k.toSync.modW k.nThread fun _ => .init } (some k.nThread) :=
    h.mono.sync (.modW (.inl hno) (fun hne => absurd rfl hne) fun m hl => absurd hl id)
  have h2 := h1.renew (s := s.modT k.nThread fun _ => x) (fun u hu => by rw [modT_thr_ne _ hu, ht])
    hno (fun m hm => ?_) (by simpa using hb) (by simpa [← hb] using hp)
  · have h3 := h2.sched (.add (c := c) (t := k.nThread) (by simp [hst]))
    exact { h3 with }
  · have := (hx.owned.hold m k.nThread).mpr hm
    rw [hheld] at this
    cases this

theorem create (hx : Exclusive c k) (p : Nat) : Inherits c (threadCreate c k p) none := by
  unfold threadCreate
  split
  · exact h
  · rename_i hp
    exact h.spawn hx rfl rfl rfl (not_le.mp hp)

end

end Inherits

theorem reserve_thr {s s' : Sched} {r p : Nat} (h : dlBandwidthReserve s r p = some s') :
    s'.thr = s.thr := by
  obtain ⟨-, ⟨⟩⟩ := ite_none_left_eq_some.mp h
  exact setThisBw_thr _ _

theorem release_thr (s : Sched) (r p : Nat) : (dlBandwidthRelease s r p).thr = s.thr :=
  setThisBw_thr _ _

section
variable (h : Inherits c k none)
include h

theorem Inherits.createDl (hx : Exclusive c k) (r d p : Nat) :
    Inherits c (deadlineThreadCreate c k r d p) none := by
  unfold deadlineThreadCreate
  split
  · exact h
  split
  · exact h
  · rename_i s hs
    exact h.spawn hx (reserve_thr hs) rfl rfl c.priority_pos

/-- No call locks a mutex under the next fresh name. -/
theorem Inherits.createMutex (hx : Exclusive c k) (b b' : Bool) : Inherits c { k with
      toSync := k.toSync.modM k.nMutex fun _ => mutexInit b b'
      nMutex := k.nMutex + 1 } none := by
  have hnil : k.waiters (.mutex k.nMutex) = [] := by
    refine eq_nil_iff_forall_not_mem.mpr fun w hw => ?_
    have hcall := (hx.owned.parked w _ ((hx.intact.parked.mem_iff _ _).mp hw)).1
    exact absurd (h.named w k.nMutex (by rw [hcall]; rfl)) (lt_irrefl _)
  exact h.frame (.modM (f := fun _ => mutexInit b b') (fun hne => absurd hnil hne)
    fun hne => absurd hnil hne) (le_succ _) (.refl _)

theorem Inherits.enableKill {m : Mid} : Inherits c (mutexEnableKill k m) none :=
  h.sync (.modM (fun _ _ _ => id) fun _ => le_rfl)

theorem Inherits.delay (hr : (k.thr t).Runnable) (ticks : BitVec 32) :
    Inherits c (scheduleDelay c k t ticks) none := by
  unfold scheduleDelay
  split
  · exact h
  · refine h.sched (SameRank.remove.trans (.wheelInsert ?_ _))
    rw [remove_thr]
    exact hr.alive

theorem Inherits.jobFinish : Inherits c (deadlineJobFinish k t) none := by
  unfold deadlineJobFinish
  simp only
  split
  · exact h
  · exact h.sched (.account (dlFinish_accounted _ _))

theorem Inherits.resume (hs : ResumeSafe k t) : Inherits c (threadResume c k t) none := by
  have hd : (k.thr t).state ≠ .terminated := by
    rcases hs with hs | hs
    · simp [hs]
    · exact hs.1.alive
  unfold threadResume
  simp only
  split
  · exact h.sched ((SameRank.wheelInsert hd _).trans (.write rfl rfl rfl id))
  · exact h.sched (.add hd)

theorem Inherits.recompute (hx : Exclusive c k) (hs : ShortChains c k)
    (ht : Live k t) : Inherits c (mutexPriorityRecompute c k t) none := by
  have hlt : t < k.nThread := not_le.mp fun hle => ht (hx.intact.fresh t hle)
  refine h.mono.propagate hx.intact
    (fun m o ho => (hx.owned.hold m o).mpr ho) _ ?_ ?_
  · rintro u ⟨⟩
    exact hs t hlt
  · rintro u ⟨⟩ -
    exact (h.ranked.base_lt t).le

end

theorem storeDeadline_basePriority (now d : BitVec 32) (x : Tcb) :
    (storeDeadline now d x).basePriority = x.basePriority := by
  unfold storeDeadline
  split <;> rfl

theorem Inherits.setDeadline (h : Inherits c k none) (hi : Intact c ∅ k) (d : BitVec 32) :
    Inherits c (threadSetDeadline c k t d) none := by
  obtain ⟨hst, hp, -⟩ := storeDeadline_kept k.globalTick d (k.thr t)
  have hb := storeDeadline_basePriority k.globalTick d (k.thr t)
  unfold threadSetDeadline
  split
  · rename_i hr
    have hp' : (storeDeadline k.globalTick d (k.thr t)).priority < c.priority :=
      hp ▸ hi.linked.prio_lt t
    have hself := relink_thr_self hr hp'
    refine h.sched ⟨fun u => ?_, fun u => ?_, fun u hd => ?_⟩ <;> by_cases hu : u = t
    · subst hu
      rw [hself]
      simp [hp]
    · rw [relink_thr_ne hp' hu]
    · subst hu
      rw [hself]
      simp [hb]
    · rw [relink_thr_ne hp' hu]
    · subst hu
      exact absurd hd hr.alive
    · rw [relink_thr_ne hp' hu]
      exact hd
  · exact h.sched (.write rfl hp hb fun hd => hst.trans hd)

theorem SameRank.renegotiate (x : Tcb) (r p : Nat) : SameRank s (dlRenegotiate s t x r p) := by
  unfold dlRenegotiate
  simp only
  cases hn : dlBandwidthReserve s r p with
  | some s1 =>
    exact (SameRank.of_thr (reserve_thr hn)).trans
      (.write (f := fun x => { x with dlRunTime := r, dlPeriod := p }) rfl rfl rfl id)
  | none =>
    cases ho : dlBandwidthReserve s x.dlRunTime x.dlPeriod with
    | some s1 => exact .of_thr (reserve_thr ho)
    | none => exact .refl s

theorem Inherits.setBandwidth (h : Inherits c k none) (r p : Nat) :
    Inherits c (deadlineThreadSetBandwidth k t r p) none := by
  unfold deadlineThreadSetBandwidth
  extract_lets x r' p'
  split_ifs
  · exact h
  · exact h
  · exact h
  · have hrel : SameRank k.toSched (dlBandwidthRelease k.toSched x.dlRunTime x.dlPeriod) :=
      .of_thr (release_thr ..)
    exact h.sched (hrel.trans (.renegotiate ..))

end thread

/-! ## SysTick and PendSV -/

section time

variable {c : Cfg} {k : Kernel} {s : Sched} {t : Tid}

theorem SameRank.leaveSlot : SameRank s (leaveSlot c s t) := by
  have h1 : SameRank s ((s.listRemove t).modT t fun x => { x with wheelSlot := c.tickWheel }) :=
    .write (f := fun x => { x with wheelSlot := c.tickWheel }) rfl rfl rfl id
  unfold Os.leaveSlot
  simp only
  split
  · exact h1.trans (.account (dlNextJob_accounted _ _))
  · exact h1

theorem Inherits.tickExpire (h : Inherits c k none) (hi : Intact c ∅ k)
    (hb : (k.thr t).state = .blocked) : Inherits c (tickExpire c k t) none := by
  unfold Os.tickExpire
  split
  · exact h.sched (.write rfl rfl rfl id)
  have h1 : Inherits c { k with toSched := Os.leaveSlot c k.toSched t } none := h.sched .leaveSlot
  have hb1 := (leaveSlot_self (c := c) k.toSched).1.trans hb
  unfold expire
  split
  · exact h1.wake hi.parked.nodup hb1 false
  · exact h1.sched (.add (by rw [hb1]; simp))

theorem Inherits.tickDecrement (h : Inherits c k none) (hi : Intact c ∅ k) :
    Inherits c (tickDecrement c k) none :=
  (hi.tickDecrement_keeps (P := fun k => Inherits c k none) (h.sched (.of_thr rfl))
    fun _ _ hi hb h => h.tickExpire hi hb).2

theorem SameRank.dlReplenish : SameRank s (dlReplenish s t) := by
  unfold Os.dlReplenish
  simp only
  split
  · exact refl s
  · have hjob : SameRank s (s.modT t (dlNextJob s.globalTick)) := .account (dlNextJob_accounted _ _)
    exact hjob.trans (.of_thr (dlListInsert_thr ..))

theorem SameRank.dlReplenishDue (s : Sched) : SameRank s (dlReplenishDue s) :=
  List.foldlRecOn _ _ (refl s) fun _ h _ _ => h.trans .dlReplenish

theorem SameRank.dlTickDecrement (hd : ∀ t, s.current = some (.thread t) → Exhausted s t →
    (s.thr t).state ≠ .terminated) : SameRank s (dlTickDecrement c s) := by
  unfold Os.dlTickDecrement
  split
  · rename_i t ht
    split
    · rename_i hch
      have h1 : SameRank s (s.modT t (dlSpend s)) := .account (dlSpend_accounted s _)
      simp only
      split
      · rename_i hz
        rw [modT_thr_self] at hz
        have h2 := (h1.trans (.remove (c := c) (t := t))).trans
          (.account (t := t) (dlMarkThrottled_accounted _))
        refine h2.trans (.wheelInsert ?_ _)
        rw [modT_thr_self, (dlMarkThrottled_accounted _).state, remove_thr, modT_thr_self,
          (dlSpend_accounted s _).state]
        exact hd t ht ⟨hch, hz⟩
      · exact h1
    · exact refl s
  · exact refl s

theorem Inherits.tick (h : Inherits c k none) (hi : Intact c ∅ k) (hs : TickSafe c k) :
    Inherits c (systickHandler c k) none := by
  refine (h.tickDecrement hi).sched ?_
  unfold tickAccount
  simp only
  split
  · rename_i hd
    have hnow : SameRank (Os.tickDecrement c k).toSched { (Os.tickDecrement c k).toSched with
        globalTick := (Os.tickDecrement c k).globalTick + 1 } := .of_thr rfl
    exact hnow.trans ((SameRank.dlReplenishDue _).trans (.dlTickDecrement fun t ht he =>
      (hs.throttled hd ht he).alive))
  · exact .of_thr rfl

/-- A context switch changes only READY and RUNNING. -/
theorem SameRank.switch (h : Linked c ∅ s) : SameRank s (scheduleSwitch c s).2 :=
  (h.switch_keeps (refl s) (fun _ _ _ hs hr _ => hs.trans (.write rfl rfl rfl fun hd =>
    absurd hd hr.alive)) fun _ _ _ hs => hs.trans (.of_thr rfl)).2

end time

end MiniTree.Os
