import Mathlib.Logic.Function.Basic
import MiniTree.Time.Millis

/-!
# A device and its lifecycle (`board/src/board_device.c`, `board/src/dev_lifecycle.c`)

Two layers keep count of a device's use. The device layer has a status with a table of
allowed changes and returns early from a second `device_open`. The driver below it counts
opens in a `dev_lifecycle`, creates the hardware on the first and destroys it on the last.

The drivers of the tree that use `dev_lifecycle` share one shape, that of
`drivers/at24c02`: `drvOpen`, `drvClose`. What the hardware answers is an argument.

The calls take the device's mutex and are atomic under it; one that does not get it returns
`MINI_ERR_BUSY` and changes nothing.
-/

namespace MiniTree.Board

/-- mirrors core/include/status.h:33-64, the codes this layer tells apart -/
inductive Err where
  | ok | inval | nomem | io | busy | timeout | defer | nodev
  | other (code : Nat)
  deriving DecidableEq, Repr

/-- mirrors board/include/device.h:44-53 (`enum device_status`) -/
inductive Status where
  | disabled | uninit | ready | probed | running | suspended | error | removed
  deriving DecidableEq, Repr

/-- mirrors board_device.c:43-75 (`device_status_can_transit`) -/
def canTransit (src dst : Status) : Bool :=
  if src = dst then true
  else match src with
    | .disabled => dst = .ready ∨ dst = .uninit
    | .uninit => dst = .ready ∨ dst = .error ∨ dst = .disabled
    | .ready => dst = .probed ∨ dst = .disabled ∨ dst = .error
    | .probed => dst = .running ∨ dst = .suspended ∨ dst = .ready ∨ dst = .removed ∨ dst = .error
    | .running => dst = .suspended ∨ dst = .ready ∨ dst = .removed ∨ dst = .error ∨ dst = .probed
    | .suspended => dst = .running ∨ dst = .ready ∨ dst = .removed ∨ dst = .error
    | .error => dst = .removed
    | .removed => dst = .ready ∨ dst = .disabled

/-! ## The lifecycle -/

/-- mirrors board/include/dev_lifecycle.h (`dev_lc_state_t`) -/
inductive LcState where
  | uninitialized | live | removing | dead
  deriving DecidableEq, Repr

/-- `opens` and `ioActive` are -1 once the teardown has locked them.
mirrors board/include/dev_lifecycle.h (`struct dev_lifecycle`) -/
structure Lifecycle where
  opens : Int
  ioActive : Int
  state : LcState
  deriving DecidableEq, Repr

namespace Lifecycle

/-- mirrors dev_lifecycle.c:24-31 (`dev_lc_init`) -/
def init : Lifecycle := ⟨0, 0, .live⟩

/-- mirrors dev_lifecycle.c:37-44 (`dev_lc_reset`) -/
def reset : Lifecycle := ⟨0, 0, .uninitialized⟩

section
variable (clock : Nat → Nat) (timeout : Option Nat) (lc : Lifecycle)

/-- The flag says that this is the first open.
mirrors dev_lifecycle.c:84-99 (`dev_lc_open_begin`) -/
def openBegin : Except Err (Bool × Lifecycle) :=
  if lc.opens < 0 then .error .nodev
  else if lc.state ≠ .live then .error .nodev
  else .ok (lc.opens + 1 = 1, { lc with opens := lc.opens + 1 })

/-- mirrors dev_lifecycle.c:114-119 (`dev_lc_open_abort`) -/
def openAbort : Lifecycle := { lc with opens := lc.opens - 1 }

/-- The flag says that this is the last close.
mirrors dev_lifecycle.c:126-139 (`dev_lc_close_begin`) -/
def closeBegin : Except Err (Bool × Lifecycle) :=
  if lc.opens ≤ 0 then .error .io
  else .ok (lc.opens - 1 = 0, { lc with opens := lc.opens - 1 })

/-- mirrors dev_lifecycle.c:187-192 (`dev_lc_remove_start`) -/
def removeStart : Lifecycle := { lc with state := .removing }

/-- Has the wait of the drain run out at the `k`-th reading of the clock? `none` is
`MINI_WAIT_FOREVER`. -/
def waitOver (k : Nat) : Bool :=
  match timeout with
  | none => false
  | some ms => Time.timedOut (clock 0) (clock k) ms

/-- The inner loop of the drain: lock `io_active`. -/
def drainIo (clock : Nat → Nat) (timeout : Option Nat) :
    Nat → Nat → Lifecycle → Option (Err × Lifecycle)
  | 0, _, _ => none
  | fuel + 1, k, lc =>
    if lc.ioActive = 0 then some (.ok, { lc with ioActive := -1 })
    else if waitOver clock timeout k then some (.timeout, lc)
    else drainIo clock timeout fuel (k + 1) lc

/-- The outer loop of the drain: lock `opens`. -/
def drainOpens (clock : Nat → Nat) (timeout : Option Nat) :
    Nat → Nat → Lifecycle → Option (Err × Lifecycle)
  | 0, _, _ => none
  | fuel + 1, k, lc =>
    if lc.opens = 0 then drainIo clock timeout fuel k { lc with opens := -1 }
    else if waitOver clock timeout k then some (.timeout, lc)
    else drainOpens clock timeout fuel (k + 1) lc

/-- The loop while no other client uses the device; `none` when `fuel` rounds of a
millisecond did not end it.
mirrors dev_lifecycle.c:200-235 (`dev_lc_remove_drain`) -/
def removeDrain (fuel : Nat) (lc : Lifecycle) : Option (Err × Lifecycle) :=
  if lc.state ≠ .removing then some (.busy, lc) else drainOpens clock timeout fuel 1 lc

end

end Lifecycle

/-! ## The device -/

/-- Which operations the driver's table has.
mirrors board/include/device.h (`struct file_operations`) -/
structure FileOperations where
  opens : Bool
  closes : Bool
  suspends : Bool
  resumes : Bool
  deriving DecidableEq, Repr

/-- mirrors board/include/device.h (`struct device`); `priv` is the pool slot behind
`priv_data`, `hwReady` a field of the driver's data there -/
structure Device where
  status : Status
  lock : Bool
  ops : Option FileOperations
  priv : Option Nat
  lc : Lifecycle
  hwReady : Bool
  deriving DecidableEq, Repr

namespace Device

section
variable (d : Device) (r hw : Err)

/-- mirrors board_device.c:519-536 (`device_set_status`) -/
def setStatus (status : Status) : Device :=
  if canTransit d.status status then { d with status := status } else d

/-- `hw` is what opening the bus answers.
mirrors drivers/at24c02/src/at24c02_drv.c:92-105 (`at24c02_hw_create`) -/
def hwCreate : Err × Device :=
  if d.hwReady then (.ok, d)
  else if hw = .ok then (.ok, { d with hwReady := true })
  else (hw, d)

/-- mirrors drivers/at24c02/src/at24c02_drv.c:110-117 (`at24c02_hw_destroy`) -/
def hwDestroy : Device := { d with hwReady := false }

/-- mirrors drivers/at24c02/src/at24c02_drv.c:122-149 (`at24c02_open`) -/
def drvOpen : Err × Device :=
  if d.ops.isNone then (.inval, d)
  else if d.priv.isNone then (.nodev, d)
  else match d.lc.openBegin with
    | .error e => (e, d)
    | .ok (first, lc) =>
      let d := { d with lc := lc }
      if first then
        match d.hwCreate hw with
        | (.ok, d) => (.ok, d)
        | (e, d) => (e, { d with lc := d.lc.openAbort })
      else (.ok, d)

/-- mirrors drivers/at24c02/src/at24c02_drv.c:154-174 (`at24c02_close`) -/
def drvClose : Err × Device :=
  if d.ops.isNone then (.inval, d)
  else if d.priv.isNone then (.nodev, d)
  else match d.lc.closeBegin with
    | .error e => (e, d)
    | .ok (last, lc) =>
      let d := { d with lc := lc }
      (.ok, if last then d.hwDestroy else d)

/-- mirrors board_device.c:627-652 -/
def deviceOpen : Err × Device :=
  if d.lock = false then (.busy, d)
  else match d.ops with
    | none => (.io, d)
    | some ops =>
      if ops.opens = false then (.io, d)
      else if d.status = .running then (.ok, d)
      else if d.status ≠ .probed then (.io, d)
      else match d.drvOpen hw with
        | (.ok, d) => (.ok, d.setStatus .running)
        | (e, d) => (e, d)

/-- mirrors board_device.c:660-681 -/
def deviceClose : Err × Device :=
  if d.lock = false then (.busy, d)
  else match d.ops with
    | none => (.io, d)
    | some ops =>
      if ops.closes = false then (.io, d)
      else if d.status ≠ .running ∧ d.status ≠ .suspended then (.io, d)
      else match d.drvClose with
        | (.ok, d) => (.ok, d.setStatus .probed)
        | (e, d) => (e, d)

/-- What a driver's `suspend` or `resume` answers: without the operation, `MINI_OK`. -/
def hookResult (has : FileOperations → Bool) (r : Err) : Err :=
  match d.ops with
  | some ops => if has ops then r else .ok
  | none => .ok

/-- `r` is what the driver's own `suspend` answers.
mirrors board_device.c:761-785 -/
def deviceSuspend : Err × Device :=
  if d.lock = false then (.busy, d)
  else if d.status ≠ .running then (.io, d)
  else match d.hookResult (·.suspends) r with
    | .ok => (.ok, d.setStatus .suspended)
    | e => (e, d)

/-- mirrors board_device.c:792-816 -/
def deviceResume : Err × Device :=
  if d.lock = false then (.busy, d)
  else if d.status ≠ .suspended then (.io, d)
  else match d.hookResult (·.resumes) r with
    | .ok => (.ok, d.setStatus .running)
    | e => (e, d)

/-- mirrors board_device.c:863-886 (`device_ops_unregister`); the event it posts is
not read by this layer -/
def opsUnregister : Device :=
  if d.lock = false then d
  else { d.setStatus .removed with priv := none, ops := none }

end

end Device

end MiniTree.Board
