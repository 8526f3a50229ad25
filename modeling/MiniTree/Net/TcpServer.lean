import Mathlib.Logic.Function.Basic
import MiniTree.Algorithm.FifoBytes

/-!
# The TCP server's session table (`net/port/tcp/tcp_server.c`)

Each accepted connection takes the first free slot and has a byte ring of its own there.
lwIP's callbacks fill the ring and free the slot again; the application reads by slot.
Connections are numbered in the order in which they are accepted, and a slot's `pcb` is
the number of its connection.
-/

namespace MiniTree.Net

open Algorithm

/-- mirrors tcp_server.c:29-35 (`struct client_session`) -/
structure Slot where
  isUsed : Bool
  pcb : Option Nat
  rx : Spsc UInt8

namespace Slot

/-- mirrors tcp_server.c:47-58 (`release_session`) -/
def release (s : Slot) : Slot := { s with pcb := none, isUsed := false }

/-- Data from the peer; the callback credits all of it, stored or not.
mirrors tcp_server.c:111-137 (`tcp_server_receive_callback`) -/
def receive (s : Slot) (chain : List (Block UInt8)) : Slot :=
  { s with rx := (storeChain chain (s.rx, 0)).1 }

/-- The slot's part of an accept.
mirrors tcp_server.c:173-176 (`tcp_server_accept_callback`) -/
def accept (s : Slot) (rxSize : UInt16) (pcb : Nat) : Slot :=
  ⟨true, some pcb, (fifoUniInit s.rx.buf 1 rxSize).getD s.rx⟩

/-- mirrors tcp_server.c:226-245 (`get_tcp_data_by_session`) -/
def getData (s : Slot) (len : UInt16) : Option (List UInt8) × Slot :=
  if s.isUsed = false then (none, s)
  else
    let r := s.rx.readBlock len
    (some r.2.1, { s with rx := r.2.2 })

/-- mirrors tcp_server.c:268-283 (`close_session`) -/
def close (s : Slot) : Slot := if s.isUsed = true ∧ s.pcb.isSome = true then s.release else s

/-- What lwIP answers at a send: `tcp_sndbuf`, and the results of `tcp_write` and `tcp_output`. -/
structure SendPath where
  sndbuf : UInt16
  write : Int
  output : Int

def errMem : Int := -1
def errConn : Int := -11
def errArg : Int := -16

/-- The result, and what is queued on the connection. `ERR_OK` is 0.
mirrors tcp_server.c:285-310 (`tcp_server_send`) -/
def send (s : Slot) (p : SendPath) (data queue : List UInt8) : Int × List UInt8 :=
  if data = [] then (errArg, queue)
  else if s.isUsed = false ∨ s.pcb = none then (errConn, queue)
  else if p.sndbuf = 0 then (errMem, queue)
  else
    let writeLen := if p.sndbuf.toNat < data.length then p.sndbuf.toNat else data.length
    if p.write ≠ 0 then (p.write, queue)
    else (if p.output ≠ 0 then p.output else writeLen, queue ++ data.take writeLen)

end Slot

/-- The slot a new connection takes.
mirrors tcp_server.c:154-161 -/
def freeSlot (slots : Nat → Slot) (clients : Nat) : Option Nat :=
  (List.range clients).find? fun i => (slots i).isUsed = false

theorem Slot.accept_holds (s : Slot) {rxSize : UInt16} (h0 : rxSize ≠ 0)
    (hp : rxSize &&& (rxSize - 1) = 0) (pcb : Nat) : Holds (s.accept rxSize pcb).rx [] := by
  have hi : fifoUniInit s.rx.buf 1 rxSize = some ⟨s.rx.buf, rxSize, 1, rxSize - 1, 0, 0⟩ := by
    unfold fifoUniInit
    rw [if_neg (by simp [h0, hp])]
  unfold Slot.accept
  dsimp only
  rw [hi, Option.getD_some]
  exact (Holds.init hi).1

end MiniTree.Net
