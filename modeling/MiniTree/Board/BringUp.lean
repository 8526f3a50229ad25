import Mathlib.Data.List.Basic
import Mathlib.Logic.Relation
import MiniTree.Board.Device

/-!
# Bringing up the devices of a board (`board/src/board_driver.c`)

`board_driver_probe_all` walks the generated device table in dependency order, up to three
times. A visit of a device skips it, defers it, disables it, or calls its driver's probe
and opens it; a failure disables the devices that depend on it.

A `Table` is what the generator computes: the order lists each device behind its
dependencies, and the cascade of a device is everything that depends on it, directly or
not. What it writes keeps the lengths of these lists in a `uint8_t`. What the drivers and the
hardware answer is the environment's, and may differ from call to call.

Whether a device may be probed is decided by `device_dependency_not_ready`, which only
looks for dependencies in `ERROR` or `REMOVED`. One that is still `READY`, because its own
probe asked to be deferred, or `DISABLED` passes. `calls` is a history variable: each probe
call with the statuses at that moment.

**Results.** `bringUp_respects_deps`: on tables and answers without such dependencies, whose cascades
fit the written table, each probe call comes when all dependencies are up, and what is up at the end
depends only on what is up.
-/

namespace MiniTree.Board

open Function List

/-- What the bring-up sees of a driver. At its probe a driver with a pool claims a slot; one
that `opens` installs its operations and may renew the lifecycle (`binds`), a bus host
installs none. Its remove, if it has one, may drain the lifecycle first. -/
structure Driver where
  opens : Bool
  binds : Bool
  removes : Bool
  drains : Bool
  pool : Option Nat
  deriving DecidableEq, Repr

/-- mirrors board/include/device.h (`struct device_node`), the fields the bring-up reads -/
structure Node where
  named : Bool
  enabled : Bool
  direct : Bool
  fatal : Bool
  deps : List Nat
  driver : Option Driver
  deriving DecidableEq, Repr

/-- The generated tables.
mirrors tools/dtc_lite/compiler.py:1040-1091, 1110-1136 (`topological_sort`, `compute_cascade_tables`)
for what they guarantee -/
structure Table where
  count : Nat
  node : Nat → Node
  /-- `board_probe_order` -/
  order : List Nat
  cascade : Nat → List Nat
  poolSize : Nat → Nat
  nodup : order.Nodup
  mem_order : ∀ d, d ∈ order ↔ d < count
  deps_lt : ∀ d, ∀ e ∈ (node d).deps, e < count
  deps_first : ∀ l₁ d l₂, order = l₁ ++ d :: l₂ → ∀ e ∈ (node d).deps, e ∈ l₁
  mem_cascade : ∀ e d, d ∈ cascade e ↔ d < count ∧ Relation.TransGen (fun a b => a ∈ (node b).deps) e d

namespace Table

/-- `deps` and `dep_count`, a `uint8_t`. -/
def depsGet (t : Table) (d : Nat) : List Nat :=
  (t.node d).deps.take ((t.node d).deps.length % 2 ^ 8)

def cascadeOffset (t : Table) (d : Nat) : Nat := ((List.range d).flatMap t.cascade).length

/-- The lists one behind the other, with counts of `uint8_t` and offsets of `uint16_t`.
mirrors generator.py:398-450 (`_append_device_id_relation_table`) for `board_cascade_get` -/
def cascadeGet (t : Table) (d : Nat) : List Nat :=
  if t.count ≤ d then []
  else (((List.range t.count).flatMap t.cascade).drop (t.cascadeOffset d % 2 ^ 16)).take
    ((t.cascade d).length % 2 ^ 8)

/-- The counts and offsets of the cascades fit their types. -/
def Encoded (t : Table) : Prop :=
  ∀ d < t.count, (t.cascade d).length < 2 ^ 8 ∧ t.cascadeOffset d < 2 ^ 16

end Table

/-- The answers at the `k`-th probe call, made for device `d`: of the driver's probe, and of
the hardware when the device is then opened. -/
def Answers := Nat → Nat → Err × Err

/-- The devices at run time, with the pools of their drivers. -/
structure Devices where
  dev : Nat → Device
  /-- the slots in use of each pool -/
  used : Nat → Nat → Bool
  fail : UInt8
  /-- `MINI_PANIC` has stopped the system -/
  halted : Bool
  calls : List (Nat × (Nat → Status))

namespace Devices

variable (t : Table)

def status (b : Devices) (d : Nat) : Status := (b.dev d).status

/-- mirrors board_device.c:81-116 (`device_tree_init`) -/
def treeInit : Devices where
  dev d :=
    let live := (t.node d).enabled && !(t.node d).direct
    ⟨if (t.node d).enabled then .ready else .disabled, live, none, none,
      if live then .init else .reset, false⟩
  used := fun _ _ => false
  fail := 0
  halted := false
  calls := []

def setStatus (b : Devices) (d : Nat) (status : Status) : Devices :=
  { b with dev := update b.dev d ((b.dev d).setStatus status) }

section
variable (b : Devices) (d : Nat) (drv : Driver)

/-- mirrors board_driver.c:145-164 (`device_dependency_not_ready`) -/
def dependencyNotReady : Bool :=
  (t.depsGet d).any fun e =>
    decide (t.count ≤ e) || !(t.node e).direct && (b.status e = .error || b.status e = .removed)

def isUp : Status → Bool
  | .probed | .running | .suspended => true
  | _ => false

/-- mirrors board_driver.c:171-191 (`device_dependency_pending`) -/
def dependencyPending : Bool :=
  (t.depsGet d).any fun e =>
    decide (t.count ≤ e) || !(t.node e).direct && !isUp (b.status e)

/-- mirrors board_driver.c:198-214 -/
def handleProbeFailure : Devices :=
  if (t.node d).fatal then { b with halted := true } else b

def disableChild (child : Nat) : Devices :=
  if t.count ≤ child then b
  else if b.status child = .disabled ∨ b.status child = .removed then b
  else b.setStatus child .disabled

/-- mirrors board_driver.c:220-238 -/
def disableDependents : Devices := (t.cascadeGet d).foldl (disableChild t) b

/-- The end of a failed visit: the failure is handled, and unless that stops the system the
dependents are disabled. -/
def failed : Devices :=
  let b := handleProbeFailure t b d
  if b.halted then b else { disableDependents t b d with fail := b.fail + 1 }

/-- mirrors core/src/mini_slot.c (`mini_slot_claim`) -/
def slotClaim (pool : Nat) : Option Nat :=
  (List.range (t.poolSize pool)).find? fun i => !b.used pool i

def setSlot (pool idx : Nat) (x : Bool) : Devices :=
  { b with used := update b.used pool (update (b.used pool) idx x) }

/-- A driver's probe. On its error path it gives the slot back and clears the operations.
mirrors drivers/at24c02/src/at24c02_drv.c:271-304 (`at24c02_probe`), for drivers that bind
vfs/gpio/vfs-gpio.c:262-350 (`vfs_gpio_probe`), for bus hosts vfs/i2c/vfs-i2c.c:161-202
(`vfs_i2c_priv_probe_impl`), without a pool board_driver.c:81-98
(`board_safety_hw_probe`) -/
def drvProbe (answer : Err) : Err × Devices :=
  match drv.pool with
  | none => (answer, b)
  | some pool =>
    match slotClaim t b pool with
    | none => (.nomem, b)
    | some idx =>
      if answer = .ok then
        let dev := { b.dev d with
          priv := some idx
          ops := if drv.opens then some ⟨true, true, false, false⟩ else (b.dev d).ops
          hwReady := false
          lc := if drv.binds then .init else (b.dev d).lc }
        (.ok, { b.setSlot pool idx true with dev := update b.dev d dev })
      else (answer, { b with dev := update b.dev d { b.dev d with ops := none } })

end

/-- A visit that has called the probe: `board_driver.c:368-383`. -/
def probed (b : Devices) (d : Nat) (hw : Err) : Devices :=
  let b := b.setStatus d .probed
  if ((b.dev d).ops.any (·.opens)) = false then b
  else
    let r := (b.dev d).deviceOpen hw
    let b := { b with dev := update b.dev d r.2 }
    if r.1 = .ok then b else failed t (b.setStatus d .error) d

/-- The body of the inner loop; the number counts the deferred devices.
mirrors board_driver.c:316-396 -/
def visit (env : Answers) (s : Devices × Nat) (d : Nat) : Devices × Nat :=
  let (b, deferred) := s
  if b.halted then s
  else if t.count ≤ d then s
  else if b.status d = .disabled then s
  else if (t.node d).direct then s
  else if b.status d = .probed ∨ b.status d = .running then s
  else if dependencyNotReady t b d then
    if dependencyPending t b d then (b, deferred + 1)
    else ({ b.setStatus d .disabled with fail := b.fail + 1 }, deferred)
  else match (t.node d).driver with
    | none =>
      if (t.node d).named then (failed t (b.setStatus d .disabled) d, deferred)
      else (b.setStatus d .disabled, deferred)
    | some drv =>
      let answers := env b.calls.length d
      let b := { b with calls := b.calls ++ [(d, b.status)] }
      match drvProbe t b d drv answers.1 with
      | (.ok, b) => (probed t b d answers.2, deferred)
      | (.defer, b) => (b, deferred + 1)
      | (_, b) => (failed t (b.setStatus d .error) d, deferred)

/-- One device of the loop that gives up on deferred devices.
mirrors board_driver.c:406-418 -/
def giveUp (b : Devices) (d : Nat) : Devices :=
  if t.count ≤ d then b
  else if b.status d = .probed ∨ b.status d = .running then b
  else if dependencyPending t b d then { b.setStatus d .disabled with fail := b.fail + 1 }
  else b

/-- The passes that are left, with the number deferred by the last one. -/
def passes (env : Answers) : Nat → Nat → Devices → Devices
  | 0, _, b => b
  | n + 1, deferredPrev, b =>
    let (b, deferred) := t.order.foldl (visit t env) (b, 0)
    if b.halted then b
    else if deferred = 0 then b
    else if deferred = deferredPrev then t.order.foldl (giveUp t) b
    else passes env n deferred b

/-- mirrors board_driver.c:304-429 (`board_driver_probe_all`) -/
def probeAll (env : Answers) (b : Devices) : Devices := passes t env 3 0 { b with fail := 0 }

/-! ## Statements -/

/-- Every dependency of `d` that is not DIRECT is up. -/
def DepsUp (st : Nat → Status) (d : Nat) : Prop :=
  ∀ e ∈ (t.node d).deps, (t.node e).direct = false → isUp (st e) = true

/-- A device other devices wait for: an enabled one that is probed depends on it. -/
def Needed (e : Nat) : Prop := (t.node e).direct = false ∧
    ∃ d, d < t.count ∧ (t.node d).enabled = true ∧ (t.node d).direct = false ∧ e ∈ (t.node d).deps

/-- The cascades fit their table; devices that others wait for are enabled, can be told to have
failed (they have a driver or at least a name), and do not ask to be deferred. -/
structure Settled (env : Answers) : Prop where
  encoded : t.Encoded
  enabled : ∀ e, Needed t e → (t.node e).enabled = true
  visible : ∀ e, Needed t e → (t.node e).driver.isSome = true ∨ (t.node e).named = true
  answers : ∀ k e, Needed t e → (env k e).1 ≠ .defer

/-- The two halves: at each probe call the dependencies are up, and if the bring-up returns
then what is probed or running depends on devices that are up. -/
def RespectsDeps (b : Devices) : Prop := (∀ c ∈ b.calls, DepsUp t c.2 c.1) ∧
  (b.halted = false → ∀ d, d < t.count → (b.status d = .probed ∨ b.status d = .running) →
    DepsUp t b.status d)

/-! ## The order of the table -/

variable {t}

variable {e d f : Nat} {b : Devices} {st st' : Nat → Status} {x : Status} {env : Answers}
  {s : Devices × Nat} {l : List Nat}

theorem idxOf_lt_of_dep (h : e ∈ (t.node d).deps) (hd : d < t.count) :
    t.order.idxOf e < t.order.idxOf d := by
  obtain ⟨l1, l2, hl⟩ := append_of_mem ((t.mem_order d).mpr hd)
  have he := t.deps_first l1 d l2 hl e h
  have hn := t.nodup
  rw [hl] at hn ⊢
  have hd1 : d ∉ l1 := fun hm => (nodup_append.mp hn).2.2 d hm d (by simp) rfl
  rw [idxOf_append_of_mem he, idxOf_append_of_notMem hd1]
  exact lt_of_lt_of_le (idxOf_lt_length_iff.mpr he) (Nat.le_add_right _ _)

theorem idxOf_lt_of_cascade (h : d ∈ t.cascade e) : t.order.idxOf e < t.order.idxOf d := by
  obtain ⟨hd, ht⟩ := (t.mem_cascade e d).mp h
  clear h
  induction ht with
  | single h => exact idxOf_lt_of_dep h hd
  | tail _ h ih => exact lt_trans (ih (t.deps_lt _ _ h)) (idxOf_lt_of_dep h hd)

theorem not_mem_cascade_self (e : Nat) : e ∉ t.cascade e :=
  fun h => lt_irrefl _ (idxOf_lt_of_cascade h)

theorem mem_cascade_of_dep (h : e ∈ (t.node d).deps) (hd : d < t.count) : d ∈ t.cascade e :=
  (t.mem_cascade e d).mpr ⟨hd, .single h⟩

theorem mem_cascade_tail (he : e ∈ t.cascade f) (h : e ∈ (t.node d).deps)
    (hd : d < t.count) : d ∈ t.cascade f :=
  (t.mem_cascade f d).mpr ⟨hd, ((t.mem_cascade f e).mp he).2.tail h⟩

theorem cascadeGet_eq (h : t.Encoded) (f : Nat) : t.cascadeGet f = t.cascade f := by
  unfold Table.cascadeGet
  split
  · rename_i hf
    refine (eq_nil_iff_forall_not_mem.mpr fun d hd => ?_).symm
    -- the first step of the chain to `d` says that `f` is a device
    obtain ⟨c, hc, -⟩ := Relation.TransGen.head'_iff.mp ((t.mem_cascade f d).mp hd).2
    exact absurd (t.deps_lt c f hc) (not_lt.mpr hf)
  · rename_i hf
    obtain ⟨hcount, hoff⟩ := h f (not_le.mp hf)
    rw [Nat.mod_eq_of_lt hcount, Nat.mod_eq_of_lt hoff, Table.cascadeOffset]
    obtain ⟨k, hk⟩ := Nat.exists_eq_add_of_lt (not_le.mp hf)
    rw [hk, Nat.add_assoc, List.range_add, flatMap_append, drop_left, List.range_succ_eq_map,
      map_cons, flatMap_cons, Nat.add_zero, take_left]

/-! ## What the operations do to the statuses -/

theorem status_setStatus (b : Devices) (d : Nat) (x : Status) : (b.setStatus d x).status =
      update b.status d (if canTransit (b.status d) x then x else b.status d) := by
  funext e
  simp only [status, setStatus, Device.setStatus, update_apply]
  grind

/-- The status `disable_dependents` gives a device. -/
def lower : Status → Status
  | .disabled | .uninit | .ready => .disabled
  | s => s

theorem status_disableChild (hd : d < t.count) :
    (disableChild t b d).status = update b.status d (lower (b.status d)) := by
  unfold disableChild
  rw [if_neg (not_le.mpr hd)]
  split
  · rename_i h
    have : lower (b.status d) = b.status d := by rcases h with h | h <;> rw [h] <;> rfl
    rw [this, update_eq_self]
  rename_i h
  rw [status_setStatus]
  congr 1
  cases hs : b.status d <;> simp_all [canTransit, lower]

theorem lower_lower (x : Status) : lower (lower x) = lower x := by cases x <;> rfl

theorem status_foldl_disableChild (hl : ∀ d ∈ l, d < t.count) (b : Devices) :
    ∀ d, (l.foldl (disableChild t) b).status d =
      if d ∈ l then lower (b.status d) else b.status d := by
  induction l generalizing b with
  | nil => simp
  | cons x xs ih =>
    intro d
    rw [foldl_cons, ih (fun d hd => hl d (mem_cons_of_mem _ hd)),
      status_disableChild (hl x mem_cons_self)]
    by_cases hdx : d = x <;> simp [hdx, lower_lower]

section
variable (d : Device) (hw : Err) (b : Devices)

theorem status_disableDependents (he : t.Encoded) (f d : Nat) :
    (disableDependents t b f).status d =
      if d ∈ t.cascade f then lower (b.status d) else b.status d := by
  unfold disableDependents
  rw [cascadeGet_eq he]
  exact status_foldl_disableChild (fun d hd => ((t.mem_cascade f d).mp hd).1) b d

theorem disableChild_frame (d : Nat) :
    (disableChild t b d).halted = b.halted ∧ (disableChild t b d).calls = b.calls := by
  unfold disableChild
  split
  · exact ⟨rfl, rfl⟩
  · split <;> exact ⟨rfl, rfl⟩

theorem foldl_disableChild_frame (l : List Nat) (b : Devices) :
    (l.foldl (disableChild t) b).halted = b.halted ∧ (l.foldl (disableChild t) b).calls = b.calls :=
  l.foldlRecOn (motive := fun b' => b'.halted = b.halted ∧ b'.calls = b.calls) _ ⟨rfl, rfl⟩
    fun b' h x _ => (disableChild_frame b' x).imp (·.trans h.1) (·.trans h.2)

theorem failed_eq (f : Nat) : failed t b f = if (t.node f).fatal then { b with halted := true }
    else if b.halted then b else { disableDependents t b f with fail := b.fail + 1 } := by
  unfold failed handleProbeFailure
  split <;> rfl

theorem failed_calls (f : Nat) : (failed t b f).calls = b.calls := by
  rw [failed_eq]
  split
  · rfl
  · split
    · rfl
    · exact (foldl_disableChild_frame _ _).2

/-- Unless it stops the system, a failure lowers all dependents. -/
theorem status_failed (he : t.Encoded) (f : Nat) (hh : (failed t b f).halted = false) (d : Nat) :
    (failed t b f).status d = if d ∈ t.cascade f then lower (b.status d) else b.status d := by
  rw [failed_eq] at hh ⊢
  split at hh
  · cases hh
  split at hh
  · rename_i hhalt
    rw [hhalt] at hh
    cases hh
  rw [if_neg ‹_›, if_neg ‹_›]
  exact status_disableDependents b he f d

theorem status_of_dev {b b' : Devices} {f : Nat} {x : Device} (h : b'.dev = update b.dev f x) :
    b'.status = update b.status f x.status := by
  funext e
  simp only [status, h, update_apply]
  split <;> rfl

/-- What a probe may do to the record of its device. -/
structure Probed (drv : Driver) (x y : Device) : Prop where
  status : y.status = x.status
  lock : y.lock = x.lock
  lc : y.lc = x.lc ∨ y.lc = .init
  ops : y.ops = x.ops ∨ y.ops = none ∨
    drv.opens = true ∧ drv.pool.isSome = true ∧ y.priv.isSome = true

/-- What the probe of `d` may do, `ret` being its result. -/
structure Tried (drv : Driver) (d : Nat) (answer : Err) (b : Devices) (ret : Err) (b' : Devices) :
    Prop where
  dev : ∃ y, b'.dev = update b.dev d y ∧ Probed drv (b.dev d) y ∧
    (ret ≠ .ok → y.ops = (b.dev d).ops ∨ y.ops = none)
  frame : b'.halted = b.halted ∧ b'.calls = b.calls ∧ b'.fail = b.fail
  defer : ret = .defer → answer = .defer

theorem drvProbe_tried (d : Nat) (drv : Driver) (r : Err) :
    Tried drv d r b (drvProbe t b d drv r).1 (drvProbe t b d drv r).2 := by
  have hsame : ∃ y, b.dev = update b.dev d y ∧ Probed drv (b.dev d) y ∧
      (y.ops = (b.dev d).ops ∨ y.ops = none) :=
    ⟨_, (update_eq_self ..).symm, ⟨rfl, rfl, .inl rfl, .inl rfl⟩, .inl rfl⟩
  obtain ⟨y, hy, hp, hops⟩ := hsame
  unfold drvProbe
  split
  · exact ⟨⟨y, hy, hp, fun _ => hops⟩, ⟨rfl, rfl, rfl⟩, id⟩
  rename_i pool hpool
  split
  · exact ⟨⟨y, hy, hp, fun _ => hops⟩, ⟨rfl, rfl, rfl⟩, by simp⟩
  split
  · refine ⟨⟨_, rfl, ⟨rfl, rfl, ?_, ?_⟩, fun h => absurd rfl h⟩, ⟨rfl, rfl, rfl⟩, by simp⟩
    · cases drv.binds
      · exact .inl rfl
      · exact .inr rfl
    · cases ho : drv.opens
      · exact .inl rfl
      · exact .inr (.inr ⟨rfl, by rw [hpool]; rfl, rfl⟩)
  · exact ⟨⟨_, rfl, ⟨rfl, rfl, .inl rfl, .inr (.inl rfl)⟩, fun _ => .inr rfl⟩, ⟨rfl, rfl, rfl⟩, id⟩

theorem hwCreate_status : (d.hwCreate hw).2.status = d.status := by
  unfold Device.hwCreate
  split
  · rfl
  · split <;> rfl

theorem drvOpen_status : (d.drvOpen hw).2.status = d.status := by
  unfold Device.drvOpen
  dsimp only
  repeat' split
  all_goals first
    | rfl
    | (rename_i h; exact (congrArg (·.2.status) h).symm.trans (hwCreate_status _ hw))

/-- `device_open` succeeds only on a device that is up, and then leaves it up. -/
theorem deviceOpen_status :
    (d.deviceOpen hw).1 = .ok ∧ ((d.deviceOpen hw).2.status = .running) ∧ isUp d.status = true ∨
      (d.deviceOpen hw).1 ≠ .ok ∧ (d.deviceOpen hw).2.status = d.status := by
  have hdrv := drvOpen_status d hw
  unfold Device.deviceOpen
  split
  · exact .inr ⟨by simp, rfl⟩
  split
  · exact .inr ⟨by simp, rfl⟩
  split
  · exact .inr ⟨by simp, rfl⟩
  split
  · rename_i hs
    exact .inl ⟨rfl, hs, by rw [hs]; rfl⟩
  split
  · exact .inr ⟨by simp, rfl⟩
  rename_i hs
  have hp : d.status = .probed := Decidable.not_not.mp hs
  split
  · rename_i d' he
    rw [he] at hdrv
    simp only at hdrv
    refine .inl ⟨rfl, ?_, by rw [hp]; rfl⟩
    unfold Device.setStatus
    rw [hdrv, hp]
    rfl
  · rename_i hne he
    rw [he] at hdrv
    exact .inr ⟨hne, hdrv⟩

end

theorem Tried.status {drv : Driver} {answer ret : Err} {b b' : Devices}
    (h : Tried drv d answer b ret b') : b'.status = b.status := by
  obtain ⟨y, hy, hp, -⟩ := h.dev
  rw [status_of_dev hy, hp.status]
  exact update_eq_self ..

theorem probed_cases {P : Devices → Prop} {hw : Err}
    (hs : b.status f = .ready ∨ b.status f = .error)
    (still : P (b.setStatus f .probed))
    (opened : ∀ z, z = (b.dev f).setStatus .probed → z.ops.any (·.opens) = true →
      (z.deviceOpen hw).1 = .ok → (z.deviceOpen hw).2.status = .running → b.status f = .ready →
      P { b with dev := update b.dev f (z.deviceOpen hw).2 })
    (fails : ∀ b' y, b'.dev = update b.dev f y → y.status = .error → b'.halted = b.halted →
      b'.calls = b.calls → b'.fail = b.fail → P (failed t b' f)) : P (probed t b f hw) := by
  have hz : (b.setStatus f .probed).dev f = (b.dev f).setStatus .probed := update_self ..
  -- an `ERROR` device refuses to become `PROBED`
  have hst : b.status f = .ready ∧ ((b.dev f).setStatus .probed).status = .probed ∨
      ((b.dev f).setStatus .probed).status = .error := by
    unfold Device.setStatus
    unfold status at hs ⊢
    rcases hs with hs | hs <;> simp [hs, canTransit]
  unfold probed
  dsimp only
  rw [hz]
  split
  · exact still
  rename_i hopen
  have hdev : ∀ x, update (b.setStatus f .probed).dev f x = update b.dev f x :=
    fun x => update_idem ..
  rcases deviceOpen_status ((b.dev f).setStatus .probed) hw with ⟨hok, hrun, hup⟩ | ⟨hbad, hsame⟩
  · rw [if_pos hok, hdev]
    refine opened _ rfl (by simpa using hopen) hok hrun ?_
    rcases hst with ⟨hr, -⟩ | he
    · exact hr
    · rw [he] at hup
      cases hup
  · rw [if_neg hbad]
    refine fails _ ((((b.dev f).setStatus .probed).deviceOpen hw).2.setStatus .error) ?_ ?_ rfl rfl rfl
    · simp only [setStatus, update_self, update_idem]
    · generalize ((b.dev f).setStatus .probed).deviceOpen hw = r at hsame
      unfold Device.setStatus
      rcases hst with ⟨-, h⟩ | h <;> rw [hsame, h] <;> rfl

/-- A visit that comes to the dependencies of `f`. -/
structure Due (t : Table) (b : Devices) (f : Nat) : Prop where
  runs : b.halted = false
  lt : f < t.count
  ready : b.status f ≠ .disabled
  probed : (t.node f).direct = false
  down : ¬ (b.status f = .probed ∨ b.status f = .running)

theorem visit_cases {P : Devices × Nat → Prop} {n : Nat}
    (skip : b.halted = true ∨ t.count ≤ f ∨ b.status f = .disabled ∨ (t.node f).direct = true ∨
      b.status f = .probed ∨ b.status f = .running → P (b, n))
    (wait : Due t b f → dependencyNotReady t b f = true → P (if dependencyPending t b f then
      (b, n + 1) else ({ b.setStatus f .disabled with fail := b.fail + 1 }, n)))
    (bare : Due t b f → dependencyNotReady t b f = false → (t.node f).driver = none →
      P (if (t.node f).named then failed t (b.setStatus f .disabled) f
        else b.setStatus f .disabled, n))
    (probe : Due t b f → dependencyNotReady t b f = false → ∀ drv ret b₂,
      (t.node f).driver = some drv →
      Tried drv f (env b.calls.length f).1 { b with calls := b.calls ++ [(f, b.status)] } ret b₂ →
      P (match ret with
        | .ok => (probed t b₂ f (env b.calls.length f).2, n)
        | .defer => (b₂, n + 1)
        | _ => (failed t (b₂.setStatus f .error) f, n))) : P (visit t env (b, n) f) := by
  unfold visit
  dsimp only
  split
  · exact skip (.inl ‹_›)
  split
  · exact skip (.inr (.inl ‹_›))
  split
  · exact skip (.inr (.inr (.inl ‹_›)))
  split
  · exact skip (.inr (.inr (.inr (.inl ‹_›))))
  split
  · exact skip (.inr (.inr (.inr (.inr ‹_›))))
  rename_i hh hlt hon hdir hdown
  have hdue : Due t b f := ⟨by simpa using hh, not_le.mp hlt, hon, by simpa using hdir, hdown⟩
  split
  · exact wait hdue ‹_›
  rename_i hdep
  rw [Bool.not_eq_true] at hdep
  split
  · have := bare hdue hdep ‹_›
    split
    · rwa [if_pos ‹_›] at this
    · rwa [if_neg ‹_›] at this
  rename_i drv hdrv
  have hp := probe hdue hdep drv _ _ hdrv (drvProbe_tried (t := t) _ f drv _)
  generalize drvProbe t _ f drv _ = r at hp ⊢
  obtain ⟨ret, b₂⟩ := r
  cases ret <;> exact hp

/-! ## The invariant of the walk -/

/-- What holds between two visits, `seen` being the devices the pass has visited. -/
structure Inv (t : Table) (seen : Nat → Prop) (st : Nat → Status) : Prop where
  shape : ∀ d, st d ≠ .uninit ∧ st d ≠ .suspended ∧ st d ≠ .removed
  off : ∀ d, (t.node d).enabled = false → st d = .disabled
  direct : ∀ d, (t.node d).direct = true → st d = .ready ∨ st d = .disabled
  /-- what depends on a disabled or failed device is disabled -/
  closed : ∀ d e, d < t.count → (t.node d).direct = false → (t.node e).direct = false →
    e ∈ (t.node d).deps → st e = .disabled ∨ st e = .error → st d = .disabled
  /-- a device that was probed has its dependencies up -/
  tried : ∀ d, d < t.count → st d ≠ .ready → st d ≠ .disabled → DepsUp t st d
  /-- a visited device is up, or nothing is left to wait for it -/
  seen : ∀ e, seen e → (t.node e).direct = false → isUp (st e) = true ∨
    ∀ d, d < t.count → (t.node d).direct = false → e ∈ (t.node d).deps → st d = .disabled

/-- Nothing is left to wait for `f`. -/
def Unwaited (t : Table) (st : Nat → Status) (f : Nat) : Prop :=
  ∀ d, d < t.count → (t.node d).direct = false → f ∈ (t.node d).deps → st d = .disabled

section
variable {seen seen' : Nat → Prop} (h : Inv t seen st)
include h

theorem Inv.mono (hs : ∀ e, seen' e → seen e) : Inv t seen' st :=
  { h with seen := fun e he => h.seen e (hs e he) }

theorem Inv.depsUp (hd : d < t.count) (hdir : (t.node d).direct = false) (hne : st d ≠ .disabled)
    (hseen : ∀ e ∈ (t.node d).deps, seen e) : DepsUp t st d := by
  intro e he hed
  rcases h.seen e (hseen e he) hed with hup | hall
  · exact hup
  · exact absurd (hall d hd hdir he) hne

/-- A visit of `f`, which was not up and whose dependencies are: what is up stays as it is,
what is disabled stays so, and only `f` may become a device that was probed. -/
theorem Inv.visited
    (hup : ∀ e, isUp (st e) = true → st' e = st e) (hoff : ∀ d, st d = .disabled → st' d = .disabled)
    (hshape : ∀ d, st' d ≠ .uninit ∧ st' d ≠ .suspended ∧ st' d ≠ .removed)
    (hdirect : ∀ d, (t.node d).direct = true → st' d = .ready ∨ st' d = .disabled)
    (hclosed : ∀ d e, d < t.count → (t.node d).direct = false → (t.node e).direct = false →
      e ∈ (t.node d).deps → st' e = .disabled ∨ st' e = .error → st' d = .disabled)
    (htried : ∀ d, d < t.count → st' d ≠ .ready → st' d ≠ .disabled → DepsUp t st d)
    (hf : (t.node f).direct = false → isUp (st' f) = true ∨ Unwaited t st' f) :
    Inv t (fun e => seen e ∨ e = f) st' where
  shape := hshape
  off d hd := hoff d (h.off d hd)
  direct := hdirect
  closed := hclosed
  tried d hd h1 h2 e he hed := by
    have := htried d hd h1 h2 e he hed
    rw [hup e this]
    exact this
  seen := by
    rintro e (he | rfl) hed
    · rcases h.seen e he hed with hu | hall
      · rw [hup e hu]
        exact .inl hu
      · exact .inr fun d hd hdir hdep => hoff d (hall d hd hdir hdep)
    · exact hf hed

/-- The dependents of a device nobody needs are disabled in the table. -/
theorem Inv.unneeded (hn : ¬ Needed t f) (hdir : (t.node f).direct = false) : Unwaited t st f := by
  intro d hd hdd hdep
  refine h.off d ?_
  by_contra he
  exact hn ⟨hdir, d, hd, by simpa using he, hdd, hdep⟩

theorem Inv.skip (hf : (t.node f).direct = false → isUp (st f) = true ∨ Unwaited t st f) :
    Inv t (fun e => seen e ∨ e = f) st :=
  h.visited (fun _ _ => rfl) (fun _ h => h) h.shape h.direct h.closed h.tried hf

/-- `f`, which was not up, gets a new status: it is disabled or its dependencies are up, and it is up or
nobody is left to wait for it. -/
theorem Inv.set (hnup : isUp (st f) = false) (hoff : st f = .disabled → x = .disabled)
    (hshape : x ≠ .uninit ∧ x ≠ .suspended ∧ x ≠ .removed)
    (hdirect : (t.node f).direct = true → x = .disabled) (htried : x = .disabled ∨ DepsUp t st f)
    (hf : (t.node f).direct = false → isUp x = true ∨ Unwaited t st f) :
    Inv t (fun e => seen e ∨ e = f) (update st f x) := by
  have hset : ∀ d, update st f x d = if d = f then x else st d := update_apply st f x
  have hoff' : ∀ d, st d = .disabled → update st f x d = .disabled := by
    intro d hd
    rw [hset]
    split
    · rename_i hdf
      exact hoff (hdf ▸ hd)
    · exact hd
  refine h.visited ?_ hoff' ?_ ?_ ?_ ?_ fun hdir => (hf hdir).imp (fun hup => ?_)
    fun hnone d hd hdd hdep => hoff' d (hnone d hd hdd hdep)
  · intro e he
    exact update_of_ne (by rintro rfl; rw [hnup] at he; cases he) ..
  · intro d
    rw [hset]
    split
    · exact hshape
    · exact h.shape d
  · intro d hd
    rw [hset]
    split
    · rename_i hdf
      exact .inr (hdirect (hdf ▸ hd))
    · exact h.direct d hd
  · intro d e hd hdd hed hdep hdis
    refine hoff' d ?_
    rw [hset] at hdis
    split at hdis
    · rename_i hef
      refine (hf (hef ▸ hed)).resolve_left (fun hup => ?_) d hd hdd (hef ▸ hdep)
      rcases hdis with rfl | rfl <;> cases hup
    · exact h.closed d e hd hdd hed hdep hdis
  · intro d hd h1 h2
    rw [hset] at h1 h2
    split at h2
    · rename_i hdf
      exact hdf ▸ htried.resolve_left h2
    · rename_i hdf
      exact h.tried d hd (by rwa [if_neg hdf] at h1) h2
  · rw [update_self]
    exact hup

theorem Inv.up (hready : st f = .ready) (hdeps : DepsUp t st f) (hdir : (t.node f).direct = false)
    (hx : x = .probed ∨ x = .running) : Inv t (fun e => seen e ∨ e = f) (update st f x) := by
  refine h.set (by rw [hready]; rfl) (by simp [hready]) ?_ (by simp [hdir]) (.inr hdeps) fun _ => .inl ?_
  · rcases hx with rfl | rfl <;> decide
  · rcases hx with rfl | rfl <;> rfl

/-- `f` is disabled, with nobody left to wait for it unless it is DIRECT. -/
theorem Inv.drop (hf : isUp (st f) = false) (hnone : (t.node f).direct = false → Unwaited t st f) :
    Inv t (fun e => seen e ∨ e = f) (update st f .disabled) :=
  h.set hf (fun _ => rfl) (by decide) (fun _ => rfl) (.inl rfl) fun hdir => .inr (hnone hdir)

/-- `f` fails and takes everything that depends on it along. -/
theorem Inv.fail (hdir : (t.node f).direct = false) (hready : st f = .ready ∨ st f = .error)
    (hdeps : DepsUp t st f) (hx : x = .error ∨ x = .disabled) (hself : st' f = x)
    (hother : ∀ d, d ≠ f → st' d = if d ∈ t.cascade f then lower (st d) else st d) :
    Inv t (fun e => seen e ∨ e = f) st' := by
  have hfup : isUp (st f) = false := by rcases hready with h | h <;> rw [h] <;> rfl
  -- a device that can be reached from one that is not up was never probed
  have hwait : ∀ d e, d < t.count → (t.node e).direct = false → e ∈ (t.node d).deps →
      isUp (st e) = false → lower (st d) = .disabled := by
    intro d e hd hed hdep he
    by_contra hl
    have h1 : st d ≠ .ready := fun hs => hl (by rw [hs]; rfl)
    have h2 : st d ≠ .disabled := fun hs => hl (by rw [hs]; rfl)
    have := h.tried d hd h1 h2 e hdep hed
    rw [he] at this
    cases this
  have hne : ∀ {d}, d ∈ t.cascade f → d ≠ f := by
    rintro d hd rfl
    exact not_mem_cascade_self d hd
  have hdependents : ∀ d, d < t.count → f ∈ (t.node d).deps → st' d = .disabled := by
    intro d hd hdep
    have hc := mem_cascade_of_dep hdep hd
    rw [hother d (hne hc), if_pos hc]
    exact hwait d f hd hdir hdep hfup
  refine h.visited ?_ ?_ ?_ ?_ ?_ ?_ fun _ => .inr fun d hd _ hdep => hdependents d hd hdep
  · intro e he
    have hef : e ≠ f := by rintro rfl; rw [hfup] at he; cases he
    rw [hother e hef]
    split
    · cases hs : st e <;> simp_all [lower, isUp]
    · rfl
  · intro d hd
    have hdf : d ≠ f := by rintro rfl; rcases hready with h | h <;> rw [h] at hd <;> cases hd
    rw [hother d hdf, hd]
    exact ite_self _
  · intro d
    by_cases hdf : d = f
    · rw [hdf, hself]
      rcases hx with rfl | rfl <;> decide
    have := h.shape d
    rw [hother d hdf]
    split
    · cases hs : st d <;> simp_all [lower]
    · exact this
  · intro d hd
    have hdf : d ≠ f := by rintro rfl; rw [hdir] at hd; cases hd
    rw [hother d hdf]
    rcases h.direct d hd with hs | hs <;> rw [hs] <;> split <;> simp [lower]
  · intro d e hd hdd hed hdep hdis
    by_cases hef : e = f
    · subst hef
      exact hdependents d hd hdep
    rw [hother e hef] at hdis
    by_cases hec : e ∈ t.cascade f
    · rw [if_pos hec] at hdis
      have hdc := mem_cascade_tail hec hdep hd
      rw [hother d (hne hdc), if_pos hdc]
      refine hwait d e hd hed hdep ?_
      cases hs : st e <;> simp_all [lower, isUp]
    · rw [if_neg hec] at hdis
      have hdd' := h.closed d e hd hdd hed hdep hdis
      have hdf : d ≠ f := by rintro rfl; rcases hready with h | h <;> rw [h] at hdd' <;> cases hdd'
      rw [hother d hdf, hdd']
      exact ite_self _
  · intro d hd h1 h2
    by_cases hdf : d = f
    · exact hdf ▸ hdeps
    rw [hother d hdf] at h1 h2
    refine h.tried d hd ?_ ?_
    · intro hs
      rw [hs] at h1 h2
      split at h1
      · rename_i hc
        rw [if_pos hc] at h2
        exact h2 rfl
      · exact h1 rfl
    · intro hs
      rw [hs] at h2
      exact h2 (ite_self _)

end

/-- The invariant while the system runs; the calls that were made stay good in any case. -/
def Good (t : Table) (seen : Nat → Prop) (b : Devices) : Prop :=
  (∀ c ∈ b.calls, DepsUp t c.2 c.1) ∧ (b.halted = false → Inv t seen b.status)

/-- The failure path, from the state in which the visited device has its final status. -/
theorem Good.failed {seen : Nat → Prop} (he : t.Encoded) (hcalls : ∀ c ∈ b.calls, DepsUp t c.2 c.1) (h : Inv t seen st)
    (hdir : (t.node f).direct = false) (hready : st f = .ready ∨ st f = .error)
    (hdeps : DepsUp t st f) (hx : x = .error ∨ x = .disabled)
    (hst : b.status = update st f x) : Good t (fun e => seen e ∨ e = f) (failed t b f) := by
  refine ⟨by rw [failed_calls]; exact hcalls, fun hh => ?_⟩
  have hst' := status_failed b he f hh
  refine h.fail hdir hready hdeps hx ?_ fun d hd => ?_
  · rw [hst' f, if_neg (not_mem_cascade_self f), hst, update_self]
  · rw [hst' d, hst, update_of_ne hd]

theorem Good.probed {seen : Nat → Prop} (he : t.Encoded) (hw : Err)
    (hcalls : ∀ c ∈ b.calls, DepsUp t c.2 c.1) (h : Inv t seen b.status)
    (hdir : (t.node f).direct = false) (hready : b.status f = .ready ∨ b.status f = .error)
    (hdeps : DepsUp t b.status f) : Good t (fun e => seen e ∨ e = f) (probed t b f hw) := by
  refine probed_cases hready ⟨hcalls, fun _ => ?_⟩ (fun z _ _ _ hrun hr => ⟨hcalls, fun _ => ?_⟩)
    fun b' y hdev hy _ hcl _ => ?_
  · rw [status_setStatus]
    rcases hready with hr | he
    · rw [hr]
      exact h.up hr hdeps hdir (.inl rfl)
    · rw [if_neg (by rw [he]; decide), update_eq_self]
      exact h.skip fun _ => .inr fun d hd hdd hdep => h.closed d f hd hdd hdir hdep (.inr he)
  · rw [status_of_dev rfl, hrun]
    exact h.up hr hdeps hdir (.inr rfl)
  · rw [← hcl] at hcalls
    refine Good.failed he hcalls h hdir hready hdeps (.inl rfl) ?_
    rw [status_of_dev hdev, hy]

theorem dependencyNotReady_eq_false (h : DepsUp t b.status f) : dependencyNotReady t b f = false := by
  unfold dependencyNotReady
  rw [any_eq_false]
  intro e he
  replace he := mem_of_mem_take he
  have hlt := t.deps_lt f e he
  cases hd : (t.node e).direct with
  | true => simp [hlt]
  | false =>
    have hup := h e he hd
    cases hs : b.status e <;> simp_all [isUp]

theorem Good.visit (hs : Settled t env) {seen : Nat → Prop} (h : Good t seen s.1) (hf : f < t.count)
    (hseen : ∀ e ∈ (t.node f).deps, seen e) : Good t (fun e => seen e ∨ e = f) (visit t env s f).1 := by
  obtain ⟨b, deferred⟩ := s
  obtain ⟨hcalls, hinv⟩ := h
  have hdeps : Due t b f → DepsUp t b.status f := fun h =>
    (hinv h.runs).depsUp hf h.probed h.ready hseen
  have hready : Due t b f → b.status f = .ready ∨ b.status f = .error := by
    intro h
    have := (hinv h.runs).shape f
    have := h.ready
    have := h.down
    cases hst : b.status f <;> simp_all
  refine visit_cases (P := fun s => Good t (fun e => seen e ∨ e = f) s.1)
    (fun hskip => ⟨hcalls, fun hh => (hinv hh).skip fun hdir => ?_⟩)
    (fun hdue hdep => ?_) (fun hdue _ hdrv => ?_) fun hdue _ drv ret b₂ hdrv ht => ?_
  · rcases hskip with h | h | h | h | h
    · exact absurd hh (by simp [h])
    · omega
    · exact .inr fun d hd hdd hdep => (hinv hh).closed d f hd hdd hdir hdep (.inl h)
    · exact absurd hdir (by simp [h])
    · rcases h with h | h <;> exact .inl (by rw [h]; rfl)
  · rw [dependencyNotReady_eq_false (hdeps hdue)] at hdep
    cases hdep
  · have hst := status_setStatus b f .disabled
    split
    · refine Good.failed hs.encoded hcalls (hinv hdue.runs) hdue.probed (hready hdue) (hdeps hdue) ?_ hst
      rcases hready hdue with h | h <;> simp [h, canTransit]
    rename_i hnamed
    have hn : ¬ Needed t f := fun h => by
      rcases hs.visible f h with h | h
      · simp [hdrv] at h
      · exact hnamed h
    refine ⟨hcalls, fun hh => ?_⟩
    have hnone := (hinv hh).unneeded hn hdue.probed
    rw [hst]
    rcases hready hdue with h | h
    · rw [if_pos (by rw [h]; decide)]
      exact (hinv hh).drop (by rw [h]; rfl) fun _ => hnone
    · rw [if_neg (by rw [h]; decide), update_eq_self]
      exact (hinv hh).skip fun _ => .inr hnone
  have hcalls' : ∀ c ∈ b₂.calls, DepsUp t c.2 c.1 := by
    rw [ht.frame.2.1]
    exact forall_mem_append.mpr ⟨hcalls, forall_mem_singleton.mpr (hdeps hdue)⟩
  have hst : b₂.status = b.status := ht.status
  have hinv := hinv hdue.runs
  have hready := hready hdue
  have hdeps := hdeps hdue
  rw [← hst] at hinv hready hdeps
  split
  · exact Good.probed hs.encoded _ hcalls' hinv hdue.probed hready hdeps
  · have hn : ¬ Needed t f := fun h => hs.answers _ f h (ht.defer rfl)
    exact ⟨hcalls', fun _ => hinv.skip fun _ => .inr (hinv.unneeded hn hdue.probed)⟩
  · refine Good.failed hs.encoded hcalls' hinv hdue.probed hready hdeps (.inl rfl) ?_
    rw [status_setStatus]
    rcases hready with h | h <;> rw [h] <;> rfl

/-! ## Whole walks -/

theorem Good.pass (hs : Settled t env) (l₁ : List Nat) {l₂ : List Nat} (hl : t.order = l₁ ++ l₂)
    (h : Good t (· ∈ l₁) s.1) : Good t (· ∈ t.order) (l₂.foldl (Devices.visit t env) s).1 := by
  induction l₂ generalizing l₁ s with
  | nil =>
    rw [hl, append_nil]
    exact h
  | cons f rest ih =>
    have hf : f < t.count := (t.mem_order f).mp (by simp [hl])
    have hstep := h.visit hs hf (t.deps_first l₁ f rest hl)
    refine ih (l₁ ++ [f]) (by simp [hl]) ?_
    simpa only [mem_append, mem_singleton] using hstep

theorem dependencyPending_eq_false (h : DepsUp t b.status f) : dependencyPending t b f = false := by
  unfold dependencyPending
  rw [any_eq_false]
  intro e he
  replace he := mem_of_mem_take he
  have hlt := t.deps_lt f e he
  cases hd : (t.node e).direct with
  | true => simp [hlt]
  | false => simp [hlt, h e he hd]

/-- Giving up on deferred devices touches only DIRECT ones: any other that waits for a
device is disabled by now. -/
theorem Good.giveUp (h : Good t (· ∈ t.order) b) (hf : f < t.count) :
    Good t (· ∈ t.order) (giveUp t b f) := by
  unfold Devices.giveUp
  split
  · exact h
  split
  · exact h
  rename_i hnup
  split
  · rename_i hpend
    refine ⟨h.1, fun hh => ?_⟩
    have hinv := h.2 hh
    change Inv t _ (b.setStatus f .disabled).status
    rw [status_setStatus]
    cases hdir : (t.node f).direct with
    | true =>
      have hdrop := hinv.drop
        (by rcases hinv.direct f hdir with h | h <;> rw [h] <;> rfl)
        (fun h' => absurd h' (by simp [hdir]))
      have hst : (if canTransit (b.status f) .disabled = true then .disabled else b.status f) =
          Status.disabled := by rcases hinv.direct f hdir with h | h <;> rw [h] <;> rfl
      rw [hst]
      exact hdrop.mono fun e he => .inl he
    | false =>
      have hdis : b.status f = .disabled := by
        by_contra hne
        have := hinv.depsUp hf hdir hne fun e he => (t.mem_order e).mpr (t.deps_lt f e he)
        rw [dependencyPending_eq_false this] at hpend
        cases hpend
      rw [hdis]
      have : update b.status f .disabled = b.status := by rw [← hdis, update_eq_self]
      simpa [this] using hinv
  · exact h

/-- What a pass keeps, and the last look at the deferred devices behind it. -/
theorem passes_keeps {P : Devices → Prop} (hpass : ∀ b, P b →
      P (t.order.foldl (Devices.visit t env) (b, 0)).1 ∧
      P (t.order.foldl (Devices.giveUp t) (t.order.foldl (Devices.visit t env) (b, 0)).1))
    (n prev : Nat) (h : P b) : P (passes t env n prev b) := by
  induction n generalizing prev b with
  | zero => exact h
  | succ n ih =>
    obtain ⟨h1, h2⟩ := hpass b h
    unfold Devices.passes
    dsimp only
    split
    · exact h1
    split
    · exact h1
    split
    · exact h2
    · exact ih _ h1

theorem Good.passes (hs : Settled t env) (n prev : Nat)
    (h : Good t (fun _ => False) b) : Good t (fun _ => False) (passes t env n prev b) := by
  have hweak : ∀ {b'}, Good t (· ∈ t.order) b' → Good t (fun _ => False) b' :=
    fun h' => ⟨h'.1, fun hh => (h'.2 hh).mono fun _ hf => hf.elim⟩
  refine passes_keeps (fun b h => ?_) n prev h
  have hpass := Good.pass hs [] rfl (s := (b, 0))
    ⟨h.1, fun hh => (h.2 hh).mono fun e he => by cases he⟩
  exact ⟨hweak hpass, hweak (List.foldlRecOn _ _ hpass fun _ h f hf =>
    h.giveUp ((t.mem_order f).mp hf))⟩

theorem good_treeInit (hs : Settled t env) : Good t (fun _ => False) { treeInit t with fail := 0 } := by
  have hst : ∀ d, Devices.status { treeInit t with fail := 0 } d =
      if (t.node d).enabled then .ready else .disabled := fun _ => rfl
  refine ⟨fun c hc => (not_mem_nil hc).elim, fun _ => ⟨?_, ?_, ?_, ?_, ?_, fun _ h => h.elim⟩⟩
  · intro d
    rw [hst]
    split <;> decide
  · intro d hd
    rw [hst, hd]
    rfl
  · intro d _
    rw [hst]
    split
    · exact .inl rfl
    · exact .inr rfl
  · intro d e hd hdd hed hdep hdis
    rw [hst] at hdis ⊢
    split
    · rename_i hen
      simp [hs.enabled e ⟨hed, d, hd, hen, hdd, hdep⟩] at hdis
    · rfl
  · intro d _ h1 h2
    simp [hst] at h1 h2
    simp [h1] at h2

theorem bringUp_respects_deps (t : Table) (env : Answers) (hs : Settled t env) :
    RespectsDeps t (probeAll t env (treeInit t)) := by
  obtain ⟨hcalls, hinv⟩ := Good.passes hs 3 0 (good_treeInit hs)
  refine ⟨hcalls, fun hh d hd hup => ?_⟩
  refine (hinv hh).tried d hd ?_ ?_ <;> intro hst <;> rcases hup with h | h <;>
    exact absurd (hst.symm.trans h) (by decide)

/-! ## A bus and a device on it -/

/-- Device 1 depends on device 0; both are enabled and have drivers that open. -/
def pairNode (d : Nat) : Node :=
  ⟨true, d < 2, false, false, if d = 1 then [0] else [], some ⟨true, false, true, true, some 0⟩⟩

theorem mem_pairNode_deps : e ∈ (pairNode d).deps ↔ e = 0 ∧ d = 1 := by
  unfold pairNode
  by_cases h : d = 1 <;> simp [h]

def pair : Table where
  count := 2
  node := pairNode
  order := [0, 1]
  cascade e := if e = 0 then [1] else []
  poolSize := fun _ => 2
  nodup := by decide
  mem_order d := by
    simp only [mem_cons, not_mem_nil, or_false]
    omega
  deps_lt d e h := by
    obtain ⟨rfl, -⟩ := mem_pairNode_deps.mp h
    decide
  deps_first l₁ d l₂ hl e h := by
    obtain ⟨rfl, rfl⟩ := mem_pairNode_deps.mp h
    rcases l₁ with _ | ⟨x, l₁⟩
    · simp at hl
    · simp only [cons_append, List.cons.injEq] at hl
      simp [← hl.1]
  mem_cascade e d := by
    have hstep : Relation.TransGen (fun a b => a ∈ (pairNode b).deps) e d ↔ e = 0 ∧ d = 1 := by
      constructor
      · intro h
        induction h with
        | single h => exact mem_pairNode_deps.mp h
        | tail _ h ih => exact ⟨ih.1, (mem_pairNode_deps.mp h).2⟩
      · exact fun h => .single (mem_pairNode_deps.mpr h)
    rw [hstep]
    by_cases he : e = 0 <;> simp [he]
    omega

def allOk : Answers := fun _ _ => (.ok, .ok)

theorem bringUp_respects_deps_pair :
    Settled pair allOk ∧ RespectsDeps pair (probeAll pair allOk (treeInit pair)) := by
  have hs : Settled pair allOk := by
    refine ⟨by unfold Table.Encoded; decide, ?_, fun _ _ => .inl rfl, fun _ _ _ => Err.noConfusion⟩
    rintro e ⟨-, d, -, -, -, hdep⟩
    obtain ⟨rfl, -⟩ := mem_pairNode_deps.mp hdep
    rfl
  exact ⟨hs, bringUp_respects_deps pair allOk hs⟩

/-- The bus asks to be deferred at its first probe. It stays `READY`, which does not count
as "not ready", so the device on it is probed next. -/
theorem bringUp_probes_before_bus :
    ¬ ∀ (t : Table) (env : Answers), RespectsDeps t (probeAll t env (treeInit t)) := by
  intro h
  have hcall : (probeAll pair (fun k _ => (if k = 0 then .defer else .ok, .ok))
      (treeInit pair)).calls.any (fun c => c.1 = 1 && !isUp (c.2 0)) = true := by decide +kernel
  obtain ⟨⟨d, st⟩, hmem, hbad⟩ := any_eq_true.mp hcall
  rw [Bool.and_eq_true, decide_eq_true_iff, Bool.not_eq_true'] at hbad
  obtain ⟨rfl, hdown⟩ := hbad
  have := (h pair _).1 _ hmem 0 (mem_pairNode_deps.mpr ⟨rfl, rfl⟩) rfl
  rw [hdown] at this
  cases this

end Devices

end MiniTree.Board
