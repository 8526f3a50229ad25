import MiniTree.Board.BringUp

/-!
# Taking the devices of a board down (`board/src/board_driver.c`)

`board_driver_remove_all` walks the device table backwards and calls the remove function of
every device that is up. The remove of a driver with a lifecycle waits, without a timeout,
until nobody has the device open (`dev_lc_remove_drain`). But the bring-up opens each
device itself and nothing closes that open again, so the wait never ends. Only the
watchdogs' remove does not wait.

The walk is a partial function of the rounds the waits may take: `none` when `fuel` rounds
were not enough. What a bus host's own teardown answers is the environment's.

**Results.** `removeAll_completes_iff`: after any bring-up, the walk ends and each opened
device is `READY`, without operations, its slot free and fit to be brought up again,
exactly when no opened device has a driver that drains (or that has no remove).
-/

namespace MiniTree.Board.Devices

open Function List Option

variable (t : Table)

/-! ## The walk -/

def setLc (b : Devices) (d : Nat) (lc : Lifecycle) : Devices :=
  { b with dev := update b.dev d { b.dev d with lc := lc } }

/-- A driver's remove; `deinit` is what the bus answers when its host goes.
mirrors drivers/at24c02/src/at24c02_drv.c:309-334 (`at24c02_remove`), for bus hosts
vfs/i2c/vfs-i2c.c:229-267 (`vfs_i2c_priv_remove`), for drivers that do not drain
vfs/iwdg/vfs-iwdg.c:191-197 (`vfs_iwdg_remove`), without a pool
board_driver.c:105-111 (`board_safety_hw_remove`) -/
def drvRemove (fuel : Nat) (deinit : Err) (b : Devices) (d : Nat) (drv : Driver) :
    Option (Err × Devices) :=
  match drv.pool with
  | none => some (.ok, b)
  | some pool =>
    match (b.dev d).priv with
    | none => some (.nodev, b)
    | some idx =>
      if drv.drains then
        let dev := { b.dev d with lc := (b.dev d).lc.removeStart }
        let b := { b with dev := update b.dev d dev.opsUnregister }
        -- the clock is not read: the timeout is `MINI_WAIT_FOREVER`
        match (b.dev d).lc.removeDrain (fun _ => 0) none fuel with
        | none => none
        | some (.ok, _) =>
          if drv.opens = false ∧ deinit ≠ .ok then some (deinit, b.setLc d .reset)
          else
            let b := { b with dev := update b.dev d (b.dev d).hwDestroy }
            some (.ok, (b.setSlot pool idx false).setLc d .reset)
        | some (_, _) => some (.io, b.setLc d .reset)
      else
        let b := { b with dev := update b.dev d (b.dev d).opsUnregister }
        some (.ok, b.setSlot pool idx false)

/-- The body of the loop. -/
def removeOne (fuel : Nat) (deinit : Nat → Err) (b : Devices) (d : Nat) : Option Devices :=
  if t.count ≤ d then some b
  else if isUp (b.status d) = false then some b
  else match (t.node d).driver with
    | none => some (b.setStatus d .ready)
    | some drv =>
      if drv.removes = false then some (b.setStatus d .ready)
      else match drvRemove fuel (deinit d) b d drv with
        | none => none
        | some (.ok, b) => some (b.setStatus d .ready)
        | some (_, b) => some (b.setStatus d .error)

/-- mirrors board_driver.c:435-467 (`board_driver_remove_all`) -/
def removeAll (fuel : Nat) (deinit : Nat → Err) (b : Devices) : Option Devices :=
  t.order.reverse.foldlM (removeOne t fuel deinit) b

/-! ## Statements -/

/-- The bring-up has probed and opened `d`. -/
def Opened (b : Devices) (d : Nat) : Prop := d < t.count ∧ b.status d = .running

/-- Whenever a later bring-up comes to `d`, its dependencies have not failed, its pool has a
free slot and the driver and the hardware answer `MINI_OK`, then `d` comes up. -/
def Revivable (b : Devices) (d : Nat) : Prop :=
  ∀ (b' : Devices) (env : Answers) (deferred : Nat), b'.dev d = b.dev d → b'.halted = false →
    dependencyNotReady t b' d = false →
    (∀ drv ∈ (t.node d).driver, ∀ pool ∈ drv.pool, (slotClaim t b' pool).isSome = true) →
    env b'.calls.length d = (.ok, .ok) → isUp ((visit t env (b', deferred) d).1.status d) = true

/-- `b'` is what the teardown should leave of a device that `b` had open. -/
structure TakenDown (b b' : Devices) (d : Nat) : Prop where
  ready : b'.status d = .ready
  ops : (b'.dev d).ops = none
  slot : ∀ drv ∈ (t.node d).driver, ∀ pool ∈ drv.pool, ∀ idx ∈ (b.dev d).priv,
    b'.used pool idx = false
  again : Revivable t b' d

/-- The walk ends and takes every opened device down. -/
def Completes (deinit : Nat → Err) (b : Devices) : Prop :=
  ∃ fuel b', removeAll t fuel deinit b = some b' ∧ ∀ d, Opened t b d → TakenDown t b b' d

/-- The remove of every opened device exists and does not wait for the device to be closed. -/
def NoDrain (b : Devices) : Prop :=
  ∀ d, Opened t b d → ∀ drv ∈ (t.node d).driver, drv.removes = true ∧ drv.drains = false

/-! ## What a bring-up leaves -/

variable {t}

/-- The lifecycle of a device between two visits of the bring-up. An opened one carries the
reference that the bring-up itself took. -/
def Kept (n : Node) (x : Device) : Prop :=
  match x.status with
  | .ready => n.direct = false → x.lock = true ∧ x.ops = none ∧ x.lc = .init
  | .probed => x.lc = .init
  | .running => n.direct = false ∧ x.lock = true ∧ x.ops.isSome = true ∧ x.priv.isSome = true ∧
      x.lc = ⟨1, 0, .live⟩ ∧ ∃ drv, n.driver = some drv ∧ drv.opens = true ∧ drv.pool.isSome = true
  | .disabled | .error => True
  | .uninit | .suspended | .removed => False

variable {n : Node} {x : Device} {b b' : Devices} {d f pool idx fuel : Nat} {l : List Nat}
  {drv : Driver} {env : Answers} {deinit : Nat → Err} {s : Devices × Nat} {y : Status}

theorem Kept.of_eq_ready (h : Kept n x) (hs : x.status = .ready)
    (hd : n.direct = false) : x.lock = true ∧ x.ops = none ∧ x.lc = .init := by
  unfold Kept at h
  rw [hs] at h
  exact h hd

theorem Kept.of_eq_running (h : Kept n x) (hs : x.status = .running) :
    n.direct = false ∧ x.lock = true ∧ x.ops.isSome = true ∧ x.priv.isSome = true ∧ x.lc = ⟨1, 0, .live⟩ ∧
      ∃ drv, n.driver = some drv ∧ drv.opens = true ∧ drv.pool.isSome = true := by
  unfold Kept at h
  rw [hs] at h
  exact h

theorem kept_of_down (h : x.status = .disabled ∨ x.status = .error) : Kept n x := by
  unfold Kept
  rcases h with h | h <;> rw [h] <;> trivial

theorem Kept.setStatus (h : Kept n x)
    (hy : y = .disabled ∨ y = .error) : Kept n (x.setStatus y) := by
  unfold Device.setStatus
  split
  · exact kept_of_down hy
  · exact h

def AllKept (t : Table) (b : Devices) : Prop := ∀ d, Kept (t.node d) (b.dev d)

section
variable (h : AllKept t b)
include h

theorem AllKept.update (hx : Kept (t.node d) x) : ∀ e, Kept (t.node e) (update b.dev d x e) := by
  intro e
  by_cases he : e = d
  · subst he
    rw [update_self]
    exact hx
  · rw [update_of_ne he]
    exact h e

theorem AllKept.setStatus (d : Nat)
    (hy : y = .disabled ∨ y = .error) : AllKept t (b.setStatus d y) :=
  h.update ((h d).setStatus hy)

theorem AllKept.foldl_disableChild : AllKept t (l.foldl (disableChild t) b) := by
  refine List.foldlRecOn _ _ h fun b h x _ => ?_
  unfold disableChild
  split
  · exact h
  · split
    · exact h
    · exact h.setStatus x (.inl rfl)

theorem AllKept.failed (d : Nat) : AllKept t (failed t b d) := by
  rw [failed_eq]
  split
  · exact h
  · split
    · exact h
    · exact h.foldl_disableChild

end

/-- The first open of a device whose lifecycle is fresh. -/
theorem kept_deviceOpen {hw : Err} (hdir : n.direct = false) (hdrv : n.driver = some drv)
    (ho : drv.opens = true) (hpool : drv.pool.isSome = true) (hl : x.lock = true)
    (hops : x.ops.any (·.opens) = true) (hp : x.priv.isSome = true) (hlc : x.lc = .init)
    (hs : x.status = .probed) (hok : (x.deviceOpen hw).1 = .ok) : Kept n (x.deviceOpen hw).2 := by
  obtain ⟨st, lock, ops, priv, lc, hwr⟩ := x
  cases hl
  cases hs
  cases hlc
  obtain _ | ops := ops
  · cases hops
  obtain _ | priv := priv
  · cases hp
  replace hops : ops.opens = true := hops
  unfold Device.deviceOpen Device.drvOpen Device.hwCreate at hok ⊢
  cases hwr <;> by_cases hh : hw = .ok <;>
    simp_all [Lifecycle.openBegin, Device.setStatus, canTransit, Kept]

theorem Kept.not_probed {y : Device} (h : Kept n x)
    (hp : Probed drv x y) (hs : x.status = .ready ∨ x.status = .error)
    (hops : y.ops = x.ops ∨ y.ops = none) : Kept n y := by
  rcases hs with hs | hs
  · unfold Kept
    rw [hp.status, hs]
    intro hd
    obtain ⟨hlock, hno, hlc⟩ := h.of_eq_ready hs hd
    exact ⟨hp.lock.trans hlock, hops.elim (·.trans hno) id, hp.lc.elim (·.trans hlc) id⟩
  · exact kept_of_down (.inr (hp.status.trans hs))

/-- The end of a visit, from the record `y` that the probe left. -/
theorem AllKept.probed {b₂ : Devices} {y : Device} (hw : Err) (h : AllKept t b)
    (hdir : (t.node f).direct = false) (hdrv : (t.node f).driver = some drv)
    (hs : b.status f = .ready ∨ b.status f = .error) (hb₂ : b₂.dev = Function.update b.dev f y)
    (hp : Probed drv (b.dev f) y) : AllKept t (Devices.probed t b₂ f hw) := by
  have hy : b₂.dev f = y := by rw [hb₂, update_self]
  have hrest : ∀ {z}, Kept (t.node f) z → ∀ e, Kept (t.node e) (Function.update b₂.dev f z e) := by
    intro z hz
    rw [hb₂, update_idem]
    exact h.update hz
  have hst : b₂.status f = b.status f := (congrArg Device.status hy).trans hp.status
  have hready : b.status f = .ready → y.lock = true ∧ (b.dev f).ops = none ∧ y.lc = .init := by
    intro hr
    obtain ⟨h1, h2, h3⟩ := (h f).of_eq_ready hr hdir
    exact ⟨hp.lock.trans h1, h2, hp.lc.elim (·.trans h3) id⟩
  refine probed_cases (by rw [hst]; exact hs) (hrest ?_) (fun z hz hopen hok _ hr => hrest ?_)
    fun b' w hdev hw _ _ _ => AllKept.failed ?_ f
  · rw [hy]
    unfold Device.setStatus
    rw [hp.status]
    change Kept _ (if canTransit (b.status f) .probed = true then _ else y)
    rcases hs with hs | hs <;> rw [hs]
    · exact (hready hs).2.2
    · exact kept_of_down (.inr (hp.status.trans hs))
  · rw [hst] at hr
    obtain ⟨h1, h2, h3⟩ := hready hr
    obtain rfl : z = { y with status := .probed } := by
      rw [hz, hy, Device.setStatus, hp.status.trans hr]
      rfl
    have hinst : drv.opens = true ∧ drv.pool.isSome = true ∧ y.priv.isSome = true := by
      rcases hp.ops with ho | ho | ho
      · rw [ho, h2] at hopen
        cases hopen
      · rw [ho] at hopen
        cases hopen
      · exact ho
    exact kept_deviceOpen hdir hdrv hinst.1 hinst.2.1 h1 hopen hinst.2.2 h3 rfl hok
  · intro e
    rw [hdev]
    exact hrest (kept_of_down (.inr hw)) e

theorem AllKept.visit (h : AllKept t s.1) : AllKept t (visit t env s f).1 := by
  obtain ⟨b, deferred⟩ := s
  have hs : Due t b f → b.status f = .ready ∨ b.status f = .error := by
    intro hdue
    have hk := h f
    have := hdue.ready
    have := hdue.down
    unfold Kept at hk
    unfold status at *
    cases hst : (b.dev f).status <;> simp_all
  refine visit_cases (P := fun s => AllKept t s.1) (fun _ => h) (fun _ _ => ?_) (fun _ _ _ => ?_)
    fun hdue _ drv ret b₂ hdrv ht => ?_
  · split
    · exact h
    · exact h.setStatus f (.inl rfl)
  · split
    · exact (h.setStatus f (.inl rfl)).failed f
    · exact h.setStatus f (.inl rfl)
  obtain ⟨y, hy, hp, hbad⟩ := ht.dev
  have hrest : ret ≠ .ok → AllKept t b₂ := by
    intro hne e
    rw [hy]
    exact h.update ((h f).not_probed hp (hs hdue) (hbad hne)) e
  split
  · exact h.probed _ hdue.probed hdrv (hs hdue) hy hp
  · exact hrest (by decide)
  · exact ((hrest ‹_›).setStatus f (.inr rfl)).failed f

theorem AllKept.giveUp (h : AllKept t b) : AllKept t (giveUp t b f) := by
  unfold Devices.giveUp
  split
  · exact h
  split
  · exact h
  split
  · exact h.setStatus f (.inl rfl)
  · exact h

theorem AllKept.passes (n prev : Nat) (h : AllKept t b) : AllKept t (passes t env n prev b) := by
  refine passes_keeps (fun b h => ?_) n prev h
  have hpass : AllKept t (t.order.foldl (Devices.visit t env) (b, 0)).1 :=
    List.foldlRecOn (motive := fun s : Devices × Nat => AllKept t s.1) _ _ h fun _ h _ _ => h.visit
  exact ⟨hpass, List.foldlRecOn _ _ hpass fun _ h _ _ => h.giveUp⟩

theorem allKept_probeAll (env : Answers) : AllKept t (probeAll t env (treeInit t)) := by
  refine AllKept.passes 3 0 fun d => ?_
  change Kept (t.node d) ((treeInit t).dev d)
  have hst : ((treeInit t).dev d).status = if (t.node d).enabled then .ready else .disabled := rfl
  cases he : (t.node d).enabled
  · exact kept_of_down (.inl (by rw [hst, he]; rfl))
  · unfold Kept
    rw [hst, he]
    intro hd
    simp [treeInit, he, hd]

/-! ## The walk back -/

theorem setStatus_dev_of_ne (b : Devices) {e : Nat} (x : Status) (he : e ≠ d) :
    (b.setStatus d x).dev e = b.dev e := update_of_ne he ..

theorem used_setSlot (b : Devices) {p i : Nat} (h : b.used p i = false) :
    (b.setSlot pool idx false).used p i = false := by
  unfold setSlot
  simp only [update_apply]
  grind

/-- A remove only touches its own device, and claims no slot. -/
structure Apart (d : Nat) (b b' : Devices) : Prop where
  dev : ∀ e, e ≠ d → b'.dev e = b.dev e
  used : ∀ p i, b.used p i = false → b'.used p i = false

theorem Apart.setStatus (h : Apart d b b') (x : Status) : Apart d b (b'.setStatus d x) :=
  ⟨fun e he => (setStatus_dev_of_ne b' x he).trans (h.dev e he), h.used⟩

theorem drvRemove_apart {deinit : Err}
    {r : Err × Devices} (h : drvRemove fuel deinit b d drv = some r) : Apart d b r.2 := by
  unfold drvRemove at h
  split at h
  · cases h
    exact ⟨fun _ _ => rfl, fun _ _ h => h⟩
  split at h
  · cases h
    exact ⟨fun _ _ => rfl, fun _ _ h => h⟩
  split at h
  · dsimp only at h
    split at h
    · cases h
    · split at h
      · cases h
        refine ⟨fun e he => ?_, fun _ _ h => h⟩
        simp [setLc, he]
      · cases h
        refine ⟨fun e he => ?_, fun _ _ h => used_setSlot _ h⟩
        simp [setLc, setSlot, he]
    · cases h
      refine ⟨fun e he => ?_, fun _ _ h => h⟩
      simp [setLc, he]
  · cases h
    exact ⟨fun e he => update_of_ne he .., fun _ _ h => used_setSlot _ h⟩

theorem removeOne_apart (h : removeOne t fuel deinit b d = some b') : Apart d b b' := by
  have hself : Apart d b b := ⟨fun _ _ => rfl, fun _ _ h => h⟩
  unfold removeOne at h
  split at h
  · cases h
    exact hself
  split at h
  · cases h
    exact hself
  split at h
  · cases h
    exact hself.setStatus .ready
  split at h
  · cases h
    exact hself.setStatus .ready
  split at h
  · cases h
  · rename_i hr
    cases h
    exact (drvRemove_apart hr).setStatus .ready
  · rename_i hr
    cases h
    exact (drvRemove_apart hr).setStatus .error

theorem foldlM_removeOne_apart (h : l.foldlM (removeOne t fuel deinit) b = some b') :
    (∀ e, e ∉ l → b'.dev e = b.dev e) ∧ ∀ p i, b.used p i = false → b'.used p i = false := by
  induction l generalizing b with
  | nil =>
    cases h
    exact ⟨fun _ _ => rfl, fun _ _ h => h⟩
  | cons d rest ih =>
    rw [foldlM_cons] at h
    obtain ⟨b1, h1, h⟩ := bind_eq_some_iff.mp h
    have hone := removeOne_apart h1
    obtain ⟨hdev, hused⟩ := ih h
    refine ⟨fun e he => ?_, fun p i hp => hused p i (hone.used p i hp)⟩
    rw [mem_cons, not_or] at he
    exact (hdev e he.2).trans (hone.dev e he.1)

/-- Each device of the walk is removed from the record it had at the start. -/
theorem exists_removeOne (hn : l.Nodup)
    (h : l.foldlM (removeOne t fuel deinit) b = some b') (hd : d ∈ l) :
    ∃ b₁ b₂, b₁.dev d = b.dev d ∧ removeOne t fuel deinit b₁ d = some b₂ ∧
      b'.dev d = b₂.dev d ∧ ∀ p i, b₂.used p i = false → b'.used p i = false := by
  obtain ⟨l1, l2, rfl⟩ := append_of_mem hd
  have hd1 : d ∉ l1 := fun hm => (nodup_append.mp hn).2.2 d hm d (by simp) rfl
  have hd2 : d ∉ l2 := (nodup_cons.mp (nodup_append.mp hn).2.1).1
  rw [foldlM_append] at h
  obtain ⟨b₁, h1, h⟩ := bind_eq_some_iff.mp h
  rw [foldlM_cons] at h
  obtain ⟨b₂, h2, h⟩ := bind_eq_some_iff.mp h
  obtain ⟨hdev, hused⟩ := foldlM_removeOne_apart h
  exact ⟨b₁, b₂, (foldlM_removeOne_apart h1).1 d hd1, h2, hdev d hd2, hused⟩

/-! ## The wait -/

/-- The reference of the bring-up keeps the drain from ending. -/
theorem drainOpens_opened (clock : Nat → Nat) (fuel k : Nat) {lc : Lifecycle} (h : lc.opens = 1) :
    lc.drainOpens clock none fuel k = none := by
  induction fuel generalizing k with
  | zero => rfl
  | succ fuel ih =>
    unfold Lifecycle.drainOpens
    rw [if_neg (by rw [h]; decide), if_neg (by simp [Lifecycle.waitOver])]
    exact ih (k + 1)

theorem opsUnregister_lc (x : Device) : x.opsUnregister.lc = x.lc := by
  unfold Device.opsUnregister Device.setStatus
  split
  · rfl
  · split <;> rfl

theorem drvRemove_opened {deinit : Err} (hdrain : drv.drains = true) (hpool : drv.pool.isSome = true)
    (hpriv : (b.dev d).priv.isSome = true) (hlc : (b.dev d).lc = ⟨1, 0, .live⟩) :
    drvRemove fuel deinit b d drv = none := by
  obtain ⟨pool, hpool⟩ := isSome_iff_exists.mp hpool
  obtain ⟨idx, hpriv⟩ := isSome_iff_exists.mp hpriv
  unfold drvRemove
  simp only [hpool, hpriv, hdrain, if_true, update_self, opsUnregister_lc, hlc,
    Lifecycle.removeStart, Lifecycle.removeDrain]
  rw [if_neg (by decide), drainOpens_opened _ _ _ rfl]

theorem drvRemove_isSome (deinit : Err) (b : Devices) (d : Nat) (drv : Driver)
    (h : drv.drains = true → (b.dev d).lc = .init) : (drvRemove 2 deinit b d drv).isSome = true := by
  unfold drvRemove
  split
  · rfl
  split
  · rfl
  split
  · rename_i hdrain
    simp only [update_self, opsUnregister_lc, h hdrain, Lifecycle.removeStart]
    rw [show Lifecycle.removeDrain (fun _ => 0) none 2 { Lifecycle.init with state := .removing } =
      some (.ok, ⟨-1, -1, .removing⟩) from rfl]
    dsimp only
    split <;> rfl
  · rfl

/-! ## Taken down and brought up again -/

theorem setStatus_dev_self (b : Devices) (d : Nat) (x : Status) :
    (b.setStatus d x).dev d = (b.dev d).setStatus x := update_self ..

theorem hwCreate_ok (x : Device) : (x.hwCreate .ok).1 = .ok := by
  unfold Device.hwCreate
  split <;> rfl

theorem deviceOpen_ok {ops : FileOperations} (hl : x.lock = true)
    (hs : x.status = .probed) (hops : x.ops = some ops) (ho : ops.opens = true)
    (hp : x.priv.isSome = true) (hlc : 0 ≤ x.lc.opens) (hlive : x.lc.state = .live) :
    (x.deviceOpen .ok).1 = .ok ∧ (x.deviceOpen .ok).2.status = .running := by
  have hdrv : (x.drvOpen .ok).1 = .ok := by
    unfold Device.drvOpen
    rw [if_neg (by simp [hops]), if_neg (by rw [← not_isSome, hp]; decide)]
    unfold Lifecycle.openBegin
    rw [if_neg (not_lt.mpr hlc), if_neg (by rw [hlive]; decide)]
    dsimp only
    split
    · have hhw := hwCreate_ok { x with lc := { x.lc with opens := x.lc.opens + 1 } }
      split
      · rfl
      · rename_i hne he
        rw [he] at hhw
        exact absurd hhw hne
    · rfl
  have hst := drvOpen_status x .ok
  unfold Device.deviceOpen
  rw [if_neg (by simp [hl]), hops]
  dsimp only
  rw [if_neg (by simp [ho]), if_neg (by simp [hs]), if_neg (by simp [hs])]
  generalize x.drvOpen .ok = r at hdrv hst ⊢
  obtain ⟨e, y⟩ := r
  cases hdrv
  refine ⟨rfl, ?_⟩
  dsimp only at hst ⊢
  unfold Device.setStatus
  rw [hst, hs]
  rfl

/-- A visit brings up a `READY` device whose lifecycle takes opens. -/
theorem visit_up {deferred : Nat} (hd : d < t.count) (hh : b.halted = false)
    (hdir : (t.node d).direct = false) (hdrv : (t.node d).driver = some drv) (ho : drv.opens = true)
    (hpool : drv.pool = some pool) (hs : (b.dev d).status = .ready) (hl : (b.dev d).lock = true)
    (hlc : 0 ≤ (b.dev d).lc.opens) (hlive : (b.dev d).lc.state = .live)
    (hdeps : dependencyNotReady t b d = false) (hslot : slotClaim t b pool = some idx)
    (henv : env b.calls.length d = (.ok, .ok)) :
    (visit t env (b, deferred) d).1.status d = .running := by
  have hst : b.status d = .ready := hs
  unfold visit
  dsimp only
  rw [if_neg (by simp [hh]), if_neg (not_le.mpr hd), if_neg (by simp [hst]),
    if_neg (by simp [hdir]), if_neg (by simp [hst]), if_neg (by simp [hdeps]), hdrv]
  dsimp only
  rw [henv]
  -- the probe succeeds and leaves `y`
  have hprobe : ∃ b2 y, drvProbe t { b with calls := b.calls ++ [(d, b.status)] } d drv .ok =
      (.ok, b2) ∧ b2.dev d = y ∧ y.status = .ready ∧ y.lock = true ∧
      y.ops = some ⟨true, true, false, false⟩ ∧ y.priv.isSome = true ∧ 0 ≤ y.lc.opens ∧
      y.lc.state = .live := by
    have hslot' : slotClaim t { b with calls := b.calls ++ [(d, b.status)] } pool = some idx := hslot
    unfold drvProbe
    rw [hpool]
    dsimp only
    rw [hslot']
    dsimp only
    rw [if_pos rfl, ho]
    refine ⟨_, _, rfl, update_self .., hs, hl, rfl, rfl, ?_, ?_⟩
    · cases drv.binds
      · exact hlc
      · exact le_refl (0 : Int)
    · cases drv.binds
      · exact hlive
      · rfl
  obtain ⟨b2, y, hprobe, hy, h1, h2, h3, h4, h5, h6⟩ := hprobe
  rw [hprobe]
  have hz : (b2.setStatus d .probed).dev d = { y with status := .probed } := by
    rw [setStatus_dev_self, hy]
    unfold Device.setStatus
    rw [h1]
    rfl
  obtain ⟨hok, hrun⟩ := deviceOpen_ok (x := { y with status := .probed }) h2 rfl h3 rfl h4 h5 h6
  unfold probed
  dsimp only
  rw [hz, if_neg (by simp [h3]), if_pos hok, status_of_dev rfl, update_self, hrun]

theorem removeOne_opened (hd : d < t.count) (hs : (b.dev d).status = .running)
    (hdrv : (t.node d).driver = some drv) (hr : drv.removes = true) (hdrain : drv.drains = false)
    (hpool : drv.pool = some pool) (hpriv : (b.dev d).priv = some idx)
    (hl : (b.dev d).lock = true) (h : removeOne t fuel deinit b d = some b') :
    b'.dev d = { b.dev d with status := .ready, priv := none, ops := none } ∧
      b'.used pool idx = false := by
  have hst : b.status d = .running := hs
  have hun : (b.dev d).opsUnregister = { b.dev d with status := .removed, priv := none, ops := none } := by
    unfold Device.opsUnregister Device.setStatus
    rw [if_neg (by simp [hl]), hs]
    rfl
  unfold removeOne at h
  rw [if_neg (not_le.mpr hd), if_neg (by rw [hst]; decide), hdrv] at h
  dsimp only at h
  rw [if_neg (by simp [hr])] at h
  unfold drvRemove at h
  simp only [hpool, hpriv, hdrain, hun] at h
  cases h
  refine ⟨?_, ?_⟩
  · rw [setStatus_dev_self]
    change (update b.dev d _ d).setStatus .ready = _
    rw [update_self]
    rfl
  · simp [setStatus, setSlot]

/-- The walk ends when no wait can be for the reference of the bring-up. -/
theorem removeAll_isSome (deinit : Nat → Err) (hk : AllKept t b) (hno : NoDrain t b) (hn : l.Nodup) :
    ∀ {b₁ : Devices}, (∀ d ∈ l, b₁.dev d = b.dev d) →
      (l.foldlM (removeOne t 2 deinit) b₁).isSome = true := by
  induction l with
  | nil => exact fun _ => rfl
  | cons d rest ih =>
    intro b₁ hb1
    obtain ⟨hd, hn⟩ := nodup_cons.mp hn
    have hdev := hb1 d mem_cons_self
    have hone : (removeOne t 2 deinit b₁ d).isSome = true := by
      unfold removeOne
      split
      · rfl
      rename_i hlt
      split
      · rfl
      rename_i hup
      split
      · rfl
      rename_i drv hdrv
      split
      · rfl
      have hsome := drvRemove_isSome (deinit d) b₁ d drv ?_
      · generalize drvRemove 2 (deinit d) b₁ d drv = r at hsome ⊢
        obtain _ | ⟨e, b2⟩ := r
        · cases hsome
        · cases e <;> rfl
      · intro hdrain
        have hk := hk d
        have hno := fun ho => (hno d ⟨not_le.mp hlt, ho⟩ drv hdrv).2
        unfold status at hup hno
        rw [← hdev] at hk hno
        unfold Kept at hk
        cases hst : (b₁.dev d).status <;> simp_all [isUp]
    obtain ⟨b2, hb2⟩ := isSome_iff_exists.mp hone
    rw [foldlM_cons, hb2]
    refine ih hn fun e he => ?_
    have hed : e ≠ d := fun h => hd (h ▸ he)
    exact ((removeOne_apart hb2).dev e hed).trans (hb1 e (mem_cons_of_mem _ he))

theorem nodup_order_reverse (t : Table) : t.order.reverse.Nodup :=
  (reverse_perm _).nodup_iff.mpr t.nodup

theorem mem_order_reverse (hd : d < t.count) : d ∈ t.order.reverse :=
  mem_reverse.mpr ((t.mem_order d).mpr hd)

theorem noDrain_of_completes (hkept : AllKept t b) (h : Completes t deinit b) : NoDrain t b := by
  obtain ⟨fuel, b', hrun, hdown⟩ := h
  rintro d ⟨hd, hs⟩ drv hdrv
  obtain ⟨-, -, hops, hpriv, hlc, drv', hdrv', -, hpool⟩ := (hkept d).of_eq_running hs
  obtain rfl : drv' = drv := Option.some.inj (hdrv'.symm.trans hdrv)
  obtain ⟨b1, b2, hb1, hone, hb', -⟩ :=
    exists_removeOne (nodup_order_reverse t) hrun (mem_order_reverse hd)
  have hup : b1.status d = .running := (congrArg Device.status hb1).trans hs
  unfold removeOne at hone
  rw [if_neg (not_le.mpr hd), if_neg (by rw [hup]; decide), hdrv'] at hone
  dsimp only at hone
  split at hone
  · -- without a remove function the operations stay
    cases hone
    have hno := (hdown d ⟨hd, hs⟩).ops
    rw [hb', setStatus_dev_self, hb1] at hno
    unfold Device.setStatus at hno
    split at hno <;> rw [hno] at hops <;> cases hops
  · rename_i hr
    refine ⟨by simpa using hr, ?_⟩
    by_contra hdrain
    rw [drvRemove_opened (by simpa using hdrain) hpool (by rw [hb1]; exact hpriv)
      (by rw [hb1]; exact hlc)] at hone
    cases hone

theorem completes_of_noDrain (hkept : AllKept t b) (hno : NoDrain t b) : Completes t deinit b := by
  obtain ⟨b', hb'⟩ := isSome_iff_exists.mp
    (removeAll_isSome deinit hkept hno (nodup_order_reverse t) fun _ _ => rfl)
  refine ⟨2, b', hb', ?_⟩
  rintro d ⟨hd, hs⟩
  obtain ⟨hdir, hlock, hops, hpriv, hlc, drv, hdrv, hopens, hpool⟩ := (hkept d).of_eq_running hs
  obtain ⟨hr, hdrain⟩ := hno d ⟨hd, hs⟩ drv hdrv
  obtain ⟨pool, hpool⟩ := isSome_iff_exists.mp hpool
  obtain ⟨idx, hpriv⟩ := isSome_iff_exists.mp hpriv
  obtain ⟨b1, b2, hb1, hone, hdev, hused⟩ :=
    exists_removeOne (nodup_order_reverse t) hb' (mem_order_reverse hd)
  obtain ⟨hx, hslot⟩ := removeOne_opened hd (by rw [hb1]; exact hs) hdrv hr hdrain hpool
    (by rw [hb1]; exact hpriv) (by rw [hb1]; exact hlock) hone
  rw [hb1] at hx
  rw [hx] at hdev
  refine ⟨congrArg Device.status hdev, congrArg Device.ops hdev, ?_, ?_⟩
  · intro drv' hdrv' pool' hpool' idx' hidx'
    obtain rfl : drv = drv' := Option.some.inj (hdrv.symm.trans hdrv')
    obtain rfl : pool = pool' := Option.some.inj (hpool.symm.trans hpool')
    obtain rfl : idx = idx' := Option.some.inj (hpriv.symm.trans hidx')
    exact hused pool idx hslot
  · intro b3 env' deferred hb3 hh hdeps hfree henv
    obtain ⟨i, hi⟩ := isSome_iff_exists.mp (hfree drv hdrv pool hpool)
    rw [hdev] at hb3
    rw [visit_up hd hh hdir hdrv hopens hpool (by rw [hb3]) (by rw [hb3]; exact hlock)
      (by rw [hb3]; change 0 ≤ (b.dev d).lc.opens; rw [hlc]; decide)
      (by rw [hb3]; change (b.dev d).lc.state = _; rw [hlc]) hdeps hi henv]
    rfl

theorem removeAll_completes_iff (t : Table) (env : Answers) (deinit : Nat → Err) :
    Completes t deinit (probeAll t env (treeInit t)) ↔ NoDrain t (probeAll t env (treeInit t)) :=
  ⟨noDrain_of_completes (allKept_probeAll env), completes_of_noDrain (allKept_probeAll env)⟩

/-- Two devices with a lifecycle, all answers `MINI_OK`: the second was opened by the
bring-up, and its remove waits for that open for ever. -/
theorem removeAll_waits_for_bringUp : ¬ ∀ (t : Table) (env : Answers) (deinit : Nat → Err),
      Completes t deinit (probeAll t env (treeInit t)) := by
  intro h
  have hopened : Opened pair (probeAll pair allOk (treeInit pair)) 1 :=
    ⟨by decide, by decide +kernel⟩
  have := noDrain_of_completes (allKept_probeAll allOk) (h pair allOk fun _ => .ok) 1 hopened
    ⟨true, false, true, true, some 0⟩ rfl
  exact absurd this.2 (by decide)

end MiniTree.Board.Devices
