import MiniTree.Os.Semaphore

/-!
# Units of a semaphore

A unit reaches a taker through the count or by hand-off: `mini_os_semaphore_give` ends the
wait of the oldest waiter and leaves the count alone. A timeout ends a wait without a unit.
Both unlink the waiter, so whichever comes first decides (`TakeFacts`, the case `parked`).

**Results.** `conserved_of_reachable`: in every reachable state the units are accounted
for, and a take reports `MINI_OS_OK` exactly when it received one.
-/

namespace MiniTree.Os.SemSys

open MiniTree.Core Function List Nat Option

/-- What the property says of a semaphore that started with `count` units. -/
structure Conserved (count : Nat) (s : SemSys) : Prop where
  count_le : s.count ≤ s.maxCount
  list_empty : 0 < s.count → s.waits.lists () = []
  units_eq : count + s.gives = s.dropped + s.count + s.units.length
  /-- no take received two units -/
  units_nodup : s.units.Nodup
  ok_iff : ∀ r ∈ s.returns, r.2 = .ok ↔ r.1 ∈ s.units

/-- Where a thread stands in a take, and whether the take has its unit. -/
def TakeFacts (s : SemSys) (t : Tid) : Prop :=
  match s.pc t with
  | .idle => (s.waits.thr t).waitList = none
  | .entered _ _ => (s.waits.thr t).waitList = none ∧ s.call t ∉ s.units
  | .parked =>
    if (s.waits.thr t).waitList = none then
      ((s.waits.thr t).waitStatus = true ↔ s.call t ∈ s.units)
    else s.call t ∉ s.units
  | .leave ret => (s.waits.thr t).waitList = none ∧ (ret = .ok ↔ s.call t ∈ s.units)

structure Inv (count : Nat) (s : SemSys) : Prop extends Conserved count s where
  max_pos : 0 < s.maxCount
  waits_ok : s.waits.Ok
  facts : ∀ t, TakeFacts s t
  /-- a unit went to the current take of its thread or to an earlier one -/
  units_old : ∀ u ∈ s.units, u.2 ≤ s.nth u.1
  returns_old : ∀ r ∈ s.returns, r.1.2 ≤ s.nth r.1.1
  returns_done : ∀ r ∈ s.returns, r.1.2 = s.nth r.1.1 → s.pc r.1.1 = .idle

variable {s s' : SemSys} {t u : Tid}

/-- Facts about a thread that the step leaves alone. -/
theorem TakeFacts.frame (h : TakeFacts s t) (hp : s'.pc t = s.pc t)
    (hl : (s'.waits.thr t).waitList = (s.waits.thr t).waitList)
    (hs : (s'.waits.thr t).waitStatus = (s.waits.thr t).waitStatus)
    (hu : s'.call t ∈ s'.units ↔ s.call t ∈ s.units) : TakeFacts s' t := by
  unfold TakeFacts at h ⊢
  rw [hp, hl, hs]
  simp only [hu]
  exact h

/-- Receiving a unit does not touch the other threads' takes. -/
theorem call_mem_append (h : u ≠ t) : s.call u ∈ s.units ++ [s.call t] ↔ s.call u ∈ s.units := by
  have hne : s.call u ≠ s.call t := fun he => h (congrArg Prod.fst he)
  simp [hne]

theorem setPc_pc_self (s : SemSys) (t : Tid) (p : TakePc) : (s.setPc t p).pc t = p := update_self ..

theorem setPc_pc_of_ne (s : SemSys) (p : TakePc) (h : u ≠ t) : (s.setPc t p).pc u = s.pc u :=
  update_of_ne h ..

theorem le_update_succ (f : Tid → Nat) (t u : Tid) : f u ≤ update f t (f t + 1) u := by
  by_cases hu : u = t
  · subst hu
    simp
  · rw [update_of_ne hu]

variable {timeout : UInt32} {inThread : Bool}

section Steps

variable {count : Nat} {w : Waits Unit} {p : TakePc}

theorem TakeFacts.waitList_none (h : TakeFacts s t) (hp : s.pc t ≠ .parked) :
    (s.waits.thr t).waitList = none := by
  unfold TakeFacts at h
  split at h
  · exact h
  · exact h.1
  · exact absurd (by assumption) hp
  · exact h.1

/-- A waiter is parked in a take that has no unit yet. -/
theorem Inv.waiter (h : Inv count s) (ht : t ∈ s.waits.lists ()) :
    s.pc t = .parked ∧ s.call t ∉ s.units := by
  have hw : (s.waits.thr t).waitList = some () := (h.waits_ok.mem_iff () t).mp ht
  have hp : s.pc t = .parked := by
    by_contra hp
    rw [(h.facts t).waitList_none hp] at hw
    cases hw
  have hf := h.facts t
  unfold TakeFacts at hf
  rw [hp] at hf
  simp only [hw, reduceCtorEq, if_false] at hf
  exact ⟨hp, hf⟩

/-- A finished take of a thread that is in a take is an earlier one. -/
theorem Inv.returned_ne (h : Inv count s) (hp : s.pc t ≠ .idle) : ∀ r ∈ s.returns, r.1 ≠ s.call t := by
  intro r hr he
  have hd := h.returns_done r hr
  rw [he] at hd
  exact hp (hd rfl)

/-- The take of `t` receives a unit: the reports of the finished takes stand. -/
theorem Inv.ok_iff_receive (h : Inv count s) (hp : s.pc t ≠ .idle) :
    ∀ r ∈ s.returns, r.2 = .ok ↔ r.1 ∈ s.units ++ [s.call t] := by
  intro r hr
  have hne := h.returned_ne hp r hr
  rw [h.ok_iff r hr]
  simp [hne]

theorem nodup_append_call (h : s.units.Nodup) (hc : s.call t ∉ s.units) :
    (s.units ++ [s.call t]).Nodup :=
  h.append (nodup_singleton _) (by simpa using hc)

variable {ret : Err}

section
variable (h : Inv count s)
include h

/-- The step writes the program counter and the wait fields of one thread, whose facts are
given. -/
theorem Inv.move
    (hr : ∀ r ∈ s.returns, r.1 ≠ s.call t) (hempty : 0 < s.count → w.lists () = []) (hw : w.Ok)
    (hframe : ∀ u ≠ t, w.thr u = s.waits.thr u) (hf : TakeFacts ({ s with waits := w }.setPc t p) t) :
    Inv count ({ s with waits := w }.setPc t p) where
  toConserved := { h with list_empty := hempty }
  max_pos := h.max_pos
  waits_ok := hw
  facts u := by
    by_cases hu : u = t
    · subst hu
      exact hf
    · refine (h.facts u).frame (setPc_pc_of_ne _ p hu) ?_ ?_ Iff.rfl
      · exact congrArg WaitTcb.waitList (hframe u hu)
      · exact congrArg WaitTcb.waitStatus (hframe u hu)
  units_old := h.units_old
  returns_old := h.returns_old
  returns_done r hm he := by
    by_cases hu : r.1.1 = t
    · exact absurd (Prod.ext hu (hu ▸ he)) (hr r hm)
    · exact (setPc_pc_of_ne _ p hu).trans (h.returns_done r hm he)

theorem Inv.setPc (hr : ∀ r ∈ s.returns, r.1 ≠ s.call t)
    (hf : TakeFacts (s.setPc t p) t) : Inv count (s.setPc t p) :=
  h.move hr h.list_empty h.waits_ok (fun _ _ => rfl) hf

theorem Inv.setObj (obj : Obj) : Inv count { s with obj := obj } :=
  { h with }

/-- A take returns: it is over, it is not reported twice, and the report is right. -/
theorem Inv.report (hp : s.pc t = .idle)
    (hret : ret = .ok ↔ s.call t ∈ s.units) : Inv count (s.report t ret) where
  toConserved := by
    exact { h with ok_iff := forall_mem_append.mpr ⟨h.ok_iff, forall_mem_singleton.mpr hret⟩ }
  max_pos := h.max_pos
  waits_ok := h.waits_ok
  facts u := (h.facts u).frame rfl rfl rfl Iff.rfl
  units_old := h.units_old
  returns_old := forall_mem_append.mpr ⟨h.returns_old, forall_mem_singleton.mpr (le_refl _)⟩
  returns_done := forall_mem_append.mpr ⟨h.returns_done, forall_mem_singleton.mpr fun _ => hp⟩

/-- The take of `t` receives a unit, from the count or from a give. -/
theorem Inv.receive {n g : Nat} {s' : SemSys}
    (hidle : s.pc t ≠ .idle) (hc : s.call t ∉ s.units) (hs' : s' = { s with
      count := n, gives := g, waits := w, units := s.units ++ [s.call t], pc := s'.pc })
    (hn : n ≤ s.maxCount) (hempty : 0 < n → w.lists () = [])
    (hunits : count + g = s.dropped + n + (s.units.length + 1)) (hw : w.Ok)
    (hframe : ∀ u ≠ t, w.thr u = s.waits.thr u) (hpc : ∀ u ≠ t, s'.pc u = s.pc u)
    (hf : TakeFacts s' t) : Inv count s' where
  toConserved := by
    rw [hs']
    refine ⟨hn, hempty, ?_, nodup_append_call h.units_nodup hc, h.ok_iff_receive hidle⟩
    simpa using hunits
  max_pos := by rw [hs']; exact h.max_pos
  waits_ok := by rw [hs']; exact hw
  facts u := by
    by_cases hu : u = t
    · subst hu
      exact hf
    refine (h.facts u).frame (hpc u hu) ?_ ?_ ?_
    · rw [hs', ← hframe u hu]
    · rw [hs', ← hframe u hu]
    · rw [hs']
      exact call_mem_append hu
  units_old := by
    rw [hs']
    exact forall_mem_append.mpr ⟨h.units_old, forall_mem_singleton.mpr (le_refl _)⟩
  returns_old := by rw [hs']; exact h.returns_old
  returns_done r hr he := by
    rw [hs'] at hr he
    have hne := h.returned_ne hidle r hr
    by_cases hu : r.1.1 = t
    · exact absurd (Prod.ext hu (hu ▸ he)) hne
    · rw [hpc _ hu]
      exact h.returns_done r hr he

end

/-! ## The critical sections of a take -/

theorem Inv.nextTake (h : Inv count s) (hp : s.pc t = .idle) : Inv count (s.nextTake t) where
  toConserved := { h with }
  max_pos := h.max_pos
  waits_ok := h.waits_ok
  facts u := by
    by_cases hu : u = t
    · subst hu
      have := h.facts u
      unfold TakeFacts at this ⊢
      rw [hp] at this
      rw [show (s.nextTake u).pc u = .idle from hp]
      exact this
    · refine (h.facts u).frame rfl rfl rfl ?_
      rw [show (s.nextTake t).call u = s.call u from Prod.ext rfl (update_of_ne hu ..)]
      rfl
  units_old u hu := le_trans (h.units_old u hu) (le_update_succ s.nth t u.1)
  returns_old r hr := le_trans (h.returns_old r hr) (le_update_succ s.nth t r.1.1)
  returns_done r hr he := by
    have hle := h.returns_old r hr
    by_cases hu : r.1.1 = t
    · rw [hu]
      exact hp
    · exact h.returns_done r hr (he.trans (update_of_ne hu ..))

theorem nextTake_call (t : Tid) : (s.nextTake t).call t = (t, s.nth t + 1) :=
  Prod.ext rfl (update_self ..)

section
variable (h : Inv count s)
include h

theorem Inv.takeBegin (hp : s.pc t = .idle) (timeout : UInt32)
    (inThread : Bool) : Inv count (s.takeBegin t timeout inThread) := by
  have hn := h.nextTake hp
  have hfresh : (s.nextTake t).call t ∉ s.units := fun hm => by
    have := h.units_old _ hm
    rw [nextTake_call] at this
    exact not_succ_le_self _ this
  have hret : ∀ r ∈ s.returns, r.1 ≠ (s.nextTake t).call t := fun r hr he => by
    have := h.returns_old r hr
    rw [he, nextTake_call] at this
    exact not_succ_le_self _ this
  have hw : (s.waits.thr t).waitList = none := (h.facts t).waitList_none (by rw [hp]; simp)
  unfold SemSys.takeBegin
  dsimp only
  split
  · refine (hn.setObj _).setPc hret ?_
    unfold TakeFacts
    rw [setPc_pc_self]
    exact ⟨hw, hfresh⟩
  · rename_i err obj hne hacq
    refine hn.report hp ⟨fun he => ?_, fun hm => absurd hm hfresh⟩
    subst he
    exact (hne rfl).elim

theorem Inv.takeTest (hp : s.pc t = .entered timeout inThread)
    (ht : (s.waits.thr t).Runnable) : Inv count (s.takeTest t timeout inThread) := by
  have hidle : s.pc t ≠ .idle := by rw [hp]; simp
  have hret := h.returned_ne hidle
  have hf := h.facts t
  unfold TakeFacts at hf
  rw [hp] at hf
  obtain ⟨hw, hc⟩ := hf
  unfold SemSys.takeTest
  -- a failed take has no unit
  have hfail : ∀ err : Err, err ≠ .ok → Inv count (s.setPc t (.leave err)) := by
    intro err herr
    refine h.setPc hret ?_
    unfold TakeFacts
    rw [setPc_pc_self]
    exact ⟨hw, fun he => absurd he herr, fun hm => absurd hm hc⟩
  split
  · rename_i hpos
    have hle := h.count_le
    have hu := h.units_eq
    refine h.receive (n := s.count - 1) (g := s.gives) hidle hc rfl (by omega)
      (fun _ => h.list_empty hpos) (by omega) h.waits_ok (fun _ _ => rfl)
      (fun u hu => setPc_pc_of_ne _ _ hu) ?_
    unfold TakeFacts
    rw [setPc_pc_self]
    exact ⟨hw, fun _ => mem_append_right _ (mem_singleton.mpr rfl), fun _ => rfl⟩
  split
  · exact hfail _ (by simp)
  split
  · exact hfail _ (by simp)
  rename_i hzero _ _
  refine h.move hret (fun hpos => absurd hpos hzero) (h.waits_ok.syncWaitPark ht () timeout)
    (fun u hu => Waits.syncWaitPark_thr_of_ne _ hu ..) ?_
  unfold TakeFacts
  rw [setPc_pc_self]
  show if ((s.waits.syncWaitPark t () timeout).thr t).waitList = none then _ else _
  rw [Waits.syncWaitPark_thr_self, if_neg (by simp)]
  exact hc

theorem Inv.takeUnparked (hp : s.pc t = .parked)
    (ht : (s.waits.thr t).Runnable) : Inv count (s.takeUnparked t) := by
  have hf := h.facts t
  unfold TakeFacts at hf
  rw [hp] at hf
  simp only [ht.2.1, if_true] at hf
  refine h.move (h.returned_ne (by rw [hp]; simp)) h.list_empty (h.waits_ok.syncWaitDone t)
    (fun u hu => Waits.syncWaitDone_thr_of_ne _ hu) ?_
  unfold TakeFacts
  rw [setPc_pc_self]
  refine ⟨?_, Iff.trans ?_ hf⟩
  · show ((s.waits.syncWaitDone t).thr t).waitList = none
    rw [Waits.syncWaitDone_thr_self]
    exact ht.2.1
  · cases (s.waits.thr t).waitStatus <;> simp

theorem Inv.takeEnd (hp : s.pc t = .leave ret) : Inv count (s.takeEnd t ret) := by
  have hidle : s.pc t ≠ .idle := by rw [hp]; simp
  have hf := h.facts t
  unfold TakeFacts at hf
  rw [hp] at hf
  refine ((h.setObj (objDrop s.obj)).setPc (h.returned_ne hidle) ?_).report (setPc_pc_self ..) hf.2
  unfold TakeFacts
  rw [setPc_pc_self]
  exact hf.1

/-! ## The other critical sections -/

theorem Inv.give : Inv count s.give.2 := by
  unfold SemSys.give
  split
  · -- the oldest waiter gets the unit
    rename_i t w hwake
    unfold Waits.wakeOne at hwake
    split at hwake
    · cases hwake
    rename_i t' rest hlist
    cases hwake
    have hmem : t ∈ s.waits.lists () := by rw [hlist]; exact mem_cons_self ..
    obtain ⟨hp, hc⟩ := h.waiter hmem
    have hzero : s.count = 0 := by
      by_contra hne
      have := h.list_empty (Nat.pos_of_ne_zero hne)
      rw [hlist] at this
      cases this
    have hu := h.units_eq
    refine h.receive (by rw [hp]; simp) hc rfl h.count_le
      (fun hpos => absurd hzero hpos.ne') (by omega) (h.waits_ok.syncWakeThread t true)
      (fun u hu => Waits.syncWakeThread_thr_of_ne _ hu _) (fun _ _ => rfl) ?_
    unfold TakeFacts
    simp only [hp, Waits.syncWakeThread_thr_self, if_true]
    exact ⟨fun _ => mem_append_right _ (mem_singleton.mpr rfl), fun _ => trivial⟩
  · rename_i w hwake
    have hnil : s.waits.lists () = [] := by
      unfold Waits.wakeOne at hwake
      split at hwake
      · assumption
      · cases hwake
    split
    · exact h
    have hu := h.units_eq
    exact
      { h with
        count_le := by show s.count + 1 ≤ s.maxCount; omega
        list_empty := fun _ => hnil
        units_eq := by
          show count + (s.gives + 1) = s.dropped + (s.count + 1) + s.units.length
          omega
        facts := fun u => (h.facts u).frame rfl rfl rfl Iff.rfl }

theorem Inv.tick : Inv count { s with waits := s.waits.tickDecrement } where
  toConserved := ⟨h.count_le, fun hpos => by
    show (s.waits.lists ()).filter _ = []
    rw [h.list_empty hpos]
    rfl, h.units_eq, h.units_nodup, h.ok_iff⟩
  max_pos := h.max_pos
  waits_ok := h.waits_ok.tickDecrement
  facts u := by
    have hf := h.facts u
    by_cases hw : (s.waits.thr u).waitList = none
    · have hx := Waits.expire_of_none hw
      exact hf.frame rfl (hx.1.trans hw.symm) hx.2 Iff.rfl
    -- a waiter: if its wait ends here, it ends without a unit
    have hp : s.pc u = .parked := by
      by_contra hp
      exact hw (hf.waitList_none hp)
    unfold TakeFacts at hf ⊢
    rw [hp] at hf
    simp only [hw, if_false] at hf
    rw [show ({ s with waits := s.waits.tickDecrement } : SemSys).pc u = .parked from hp]
    show if (Waits.expire (s.waits.thr u)).waitList = none then _ else _
    split
    · rename_i hend
      have hstatus : (Waits.expire (s.waits.thr u)).waitStatus = false :=
        Waits.expire_of_some hend hw
      exact ⟨fun ht => absurd (hstatus.symm.trans ht) (by simp), fun hm => absurd hm hf⟩
    · exact hf
  units_old := h.units_old
  returns_old := h.returns_old
  returns_done := h.returns_done

theorem Inv.toBinary : Inv count s.toBinary.2 := by
  unfold SemSys.toBinary
  split
  · exact h
  rename_i hsat
  have hnil : s.waits.lists () = [] := by
    by_contra hne
    exact hsat (.inr hne)
  have hcount : s.count = s.maxCount := by
    by_contra hne
    exact hsat (.inl hne)
  have hu := h.units_eq
  have hpos := h.max_pos
  exact
    { h with
      count_le := le_refl 1
      list_empty := fun _ => hnil
      units_eq := by
        show count + s.gives = s.dropped + (s.count - 1) + 1 + s.units.length
        omega
      max_pos := Nat.one_pos
      facts := fun u => (h.facts u).frame rfl rfl rfl Iff.rfl }

theorem Inv.toCounting (maxCount : Nat) : Inv count (s.toCounting maxCount).2 := by
  unfold SemSys.toCounting
  split
  · exact h
  split
  · exact h
  have hle := h.count_le
  exact
    { h with
      count_le := by show s.count ≤ maxCount; omega
      max_pos := by show 0 < maxCount; omega
      facts := fun u => (h.facts u).frame rfl rfl rfl Iff.rfl }

end

end Steps

/-! ## Runs -/

theorem Inv.begin {count : Nat}
    (h : Inv count s) (hs : s.begin t timeout inThread = some s') : Inv count s' := by
  obtain ⟨hg, rfl⟩ := ite_some_none_eq_some.mp hs
  exact h.takeBegin hg.1 timeout inThread

theorem Inv.advance {count : Nat} (h : Inv count s) (hs : s.advance t = some s') : Inv count s' := by
  obtain ⟨ht, hs⟩ := ite_none_right_eq_some.mp hs
  cases hp : s.pc t with
  | idle => rw [hp] at hs; cases hs
  | entered timeout inThread => rw [hp] at hs; cases hs; exact h.takeTest hp ht
  | parked => rw [hp] at hs; cases hs; exact h.takeUnparked hp ht
  | leave ret => rw [hp] at hs; cases hs; exact h.takeEnd hp

theorem inv_isInvariant (maxCount count : Nat) (heapOwned : Bool) :
    (semaphore maxCount count heapOwned).IsInvariant (Inv count) where
  init s hs := by
    change semaphoreInit maxCount count heapOwned = some s at hs
    unfold semaphoreInit at hs
    split at hs
    · cases hs
    cases hs
    exact
      { count_le := by show count ≤ maxCount; omega
        list_empty := fun _ => rfl
        units_eq := by show count + 0 = 0 + count + 0; omega
        units_nodup := nodup_nil
        ok_iff := fun r hr => absurd hr not_mem_nil
        max_pos := by show 0 < maxCount; omega
        waits_ok := .init
        facts := fun t => rfl
        units_old := fun u hu => absurd hu not_mem_nil
        returns_old := fun r hr => absurd hr not_mem_nil
        returns_done := fun r hr => absurd hr not_mem_nil }
  step s l s' h hs := by
    change step s l = some s' at hs
    cases l with
    | take t timeout inThread | tryTake t inThread => exact h.begin hs
    | cs t => exact h.advance hs
    | give | giveIsr => cases hs; exact h.give
    | tick => cases hs; exact h.tick
    | toBinary => cases hs; exact h.toBinary
    | toCounting m => cases hs; exact h.toCounting m

theorem conserved_of_reachable {maxCount count : Nat} {heapOwned : Bool} {s : SemSys}
    (h : (semaphore maxCount count heapOwned).Reachable s) : Conserved count s :=
  ((inv_isInvariant maxCount count heapOwned).holds h).toConserved

/-- Two waiters with timeouts: a give serves the first, the tick that comes with it ends the
wait of the second. -/
theorem conserved_of_reachable_race : ∃ s, (semaphore 1 0 true).Reachable s ∧
      s.returns = [((0, 1), .ok), ((1, 1), .timeout)] ∧ Conserved 0 s := by
  obtain ⟨s, hr, hp⟩ := LTS.Reachable.of_create (semaphoreInit 1 0 true) step
    (fun _ _ => True)
    [.take 0 1 true, .cs 0, .take 1 1 true, .cs 1, .give, .tick, .cs 0, .cs 0, .cs 1, .cs 1]
    (fun s => s.returns = [((0, 1), .ok), ((1, 1), .timeout)]) (by decide +kernel)
  exact ⟨s, hr.of_restrict, hp, conserved_of_reachable hr.of_restrict⟩

end MiniTree.Os.SemSys
