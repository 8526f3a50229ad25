import Mathlib.Data.List.Count
import Mathlib.Data.List.FinRange
import MiniTree.Board.Device

/-!
# Hosts and clients of a bus (`bus/spi`, `bus/i2c`, `bus/can`, `bus/i2s`)

The four layers have one shape: a pool of hosts, the clients, and the table of controllers of
`board/src/bus.c`, in which a client finds its host. A device is its `device_id`; each is of one layer.

**Results.** `usable_of_deinits`: if no HAL deinit fails, `ref_count` counts the clients, a host with
clients is not torn down, and clients register under an initialised host. After a failed HAL deinit
the next init returns OK for a host without a controller.
-/

namespace MiniTree.Board.Bus

open Function List

inductive BusType where
  | spi | i2c | can | i2s
  deriving DecidableEq, Repr

/-- The layer, the size of its pool, `DEV_ID_COUNT` and `device_get_parent`. -/
structure Cfg where
  bus : BusType
  hostMax : Nat
  devCount : Nat
  parent : Nat → Option Nat

/-- `hosts` has the devices of the used slots, and a client has its host. -/
structure Layer (n : Nat) where
  hosts : Fin n → Option Nat
  refCount : Fin n → Nat
  controllers : Nat → Option (BusType × Fin n)
  clients : List (Nat × Fin n)

def initial {n : Nat} : Layer n := ⟨fun _ => none, fun _ => 0, fun _ => none, []⟩

section
variable (g : Cfg) (s : Layer g.hostMax) (d c : Nat) (hal : Err)

/-- mirrors spi_bus.c:75-81, i2c_bus.c:74-80, can_bus.c:62-68, i2s_bus.c:62-69 -/
def hostFromDevice : Option (Fin g.hostMax) := (finRange g.hostMax).find? (s.hosts · = some d)

/-- mirrors core/src/mini_slot.c:136-154 (`mini_slot_claim`) -/
def slotClaim : Option (Fin g.hostMax) := (finRange g.hostMax).find? (s.hosts · = none)

/-- A slot claimed in vain is released. `hal` is the answer of the HAL, and a device that is not in the
table cannot be bound. -/
def hostInit : Err × Layer g.hostMax :=
  if (hostFromDevice g s d).isSome then (.ok, s)
  else match slotClaim g s with
    | none => (.nomem, s)
    | some i =>
      if hal ≠ .ok then (hal, s)
      else if g.devCount ≤ d then (.inval, s)
      else (.ok, { s with
        hosts := update s.hosts i (some d)
        refCount := update s.refCount i 0
        controllers := update s.controllers d (some (g.bus, i)) })

def hostDeinit : Err × Layer g.hostMax :=
  match hostFromDevice g s d with
  | none => (.nodev, s)
  | some i =>
    if 0 < s.refCount i then (.busy, s)
    else
      let s := { s with controllers := update s.controllers d none }
      (hal, if hal = .ok then
        { s with hosts := update s.hosts i none, refCount := update s.refCount i 0 } else s)

/-- mirrors spi_bus.c:88-94, i2c_bus.c:87-93, can_bus.c:75-81, i2s_bus.c:76-82 -/
def clientFromDevice : Option (Nat × Fin g.hostMax) := s.clients.find? (·.1 = c)

/-- Only SPI looks at the type of the controller. -/
def clientRegister : Err × Layer g.hostMax :=
  match (g.parent c).bind s.controllers with
  | none => (.nodev, s)
  | some (type, i) =>
    if g.bus = .spi ∧ type ≠ .spi then (.nodev, s)
    else if g.devCount ≤ c then (.inval, s)
    else if (clientFromDevice g s c).isSome then (.ok, s)
    else (.ok, { s with
      clients := (c, i) :: s.clients
      refCount := update s.refCount i (s.refCount i + 1) })

def clientUnregister : Layer g.hostMax :=
  match clientFromDevice g s c with
  | none => s
  | some p => { s with
      clients := s.clients.erase p
      refCount := update s.refCount p.2 (s.refCount p.2 - 1) }

/-! The functions of the four layers. -/

/-- mirrors spi_bus.c:121-166 -/
def spiHostInitImpl := hostInit { g with bus := .spi }

/-- mirrors spi_bus.c:178-209 -/
def spiHostDeinitImpl := hostDeinit { g with bus := .spi }

/-- mirrors spi_bus.c:260-306 -/
def spiClientRegisterImpl := clientRegister { g with bus := .spi }

/-- mirrors spi_bus.c:318-338 -/
def spiClientUnregisterImpl := clientUnregister { g with bus := .spi }

/-- mirrors i2c_bus.c:123-166 -/
def i2cHostInitImpl := hostInit { g with bus := .i2c }

/-- mirrors i2c_bus.c:178-206 -/
def i2cHostDeinitImpl := hostDeinit { g with bus := .i2c }

/-- mirrors i2c_bus.c:254-296 -/
def i2cClientRegisterImpl := clientRegister { g with bus := .i2c }

/-- mirrors i2c_bus.c:308-328 -/
def i2cClientUnregisterImpl := clientUnregister { g with bus := .i2c }

/-- mirrors can_bus.c:109-152 -/
def canHostInitImpl := hostInit { g with bus := .can }

/-- mirrors can_bus.c:164-192 -/
def canHostDeinitImpl := hostDeinit { g with bus := .can }

/-- mirrors can_bus.c:217-257 -/
def canClientRegisterImpl := clientRegister { g with bus := .can }

/-- mirrors can_bus.c:268-287 -/
def canClientUnregisterImpl := clientUnregister { g with bus := .can }

/-- mirrors i2s_bus.c:104-134 -/
def i2sHostInitImpl := hostInit { g with bus := .i2s }

/-- mirrors i2s_bus.c:141-160 -/
def i2sHostDeinitImpl := hostDeinit { g with bus := .i2s }

/-- mirrors i2s_bus.c:191-223 -/
def i2sClientRegisterImpl := clientRegister { g with bus := .i2s }

/-- mirrors i2s_bus.c:229-239 -/
def i2sClientUnregisterImpl := clientUnregister { g with bus := .i2s }

inductive Label where
  | init (d : Nat) (hal : Err)
  | deinit (d : Nat) (hal : Err)
  | register (c : Nat)
  | unregister (c : Nat)

def step : Label → Layer g.hostMax
  | .init d hal => (hostInit g s d hal).2
  | .deinit d hal => (hostDeinit g s d hal).2
  | .register c => (clientRegister g s c).2
  | .unregister c => clientUnregister g s c

structure Usable : Prop where
  nodup : (s.clients.map Prod.fst).Nodup
  counted : ∀ i, s.refCount i = s.clients.countP (·.2 = i)
  busy : ∀ d hal i, hostFromDevice g s d = some i → (∃ p ∈ s.clients, p.2 = i) →
    hostDeinit g s d hal = (.busy, s)
  served : ∀ d hal c, (hostInit g s d hal).1 = .ok → g.parent c = some d → c < g.devCount →
    (clientRegister g (hostInit g s d hal).2 c).1 = .ok

/-- A device is bound to the slot that is its own. -/
structure Inv : Prop where
  nodup : (s.clients.map Prod.fst).Nodup
  counted : ∀ i, s.refCount i = s.clients.countP (·.2 = i)
  free : ∀ i, s.hosts i = none → s.refCount i = 0
  bound : ∀ d b i, s.controllers d = some (b, i) ↔ b = g.bus ∧ s.hosts i = some d

end

section
variable {g : Cfg} {s : Layer g.hostMax} {i : Fin g.hostMax} {d c : Nat} {hal : Err}

theorem hosts_of_hostFromDevice (h : hostFromDevice g s d = some i) : s.hosts i = some d := by
  simpa using find?_some h

namespace Inv

variable (h : Inv g s)
include h

theorem init : Inv g (hostInit g s d hal).2 ∧
    ((hostInit g s d hal).1 = .ok → ∃ i, (hostInit g s d hal).2.hosts i = some d) := by
  unfold hostInit
  split
  · rename_i hd
    obtain ⟨i, hi⟩ := Option.isSome_iff_exists.mp hd
    exact ⟨h, fun _ => ⟨i, hosts_of_hostFromDevice hi⟩⟩
  rename_i hd
  have hd := fun j => find?_eq_none.mp (Option.not_isSome_iff_eq_none.mp hd) j (mem_finRange j)
  split
  · exact ⟨h, nofun⟩
  rename_i i hi
  have hi : s.hosts i = none := by simpa using find?_some hi
  split_ifs
  · exact ⟨h, fun he => absurd he ‹_›⟩
  · exact ⟨h, nofun⟩
  rw [← h.free i hi, update_eq_self]
  refine ⟨⟨h.nodup, h.counted, fun j hj => h.free j ?_, fun e b j => ?_⟩, fun _ => ⟨i, update_self ..⟩⟩
  · simp only [update_apply] at hj
    grind
  · have := h.bound e b j
    have := hd j
    simp only [update_apply]
    grind

theorem deinit : Inv g (hostDeinit g s d .ok).2 := by
  unfold hostDeinit
  split
  · exact h
  rename_i i hi
  have hi := hosts_of_hostFromDevice hi
  split
  · exact h
  rename_i hr
  have hzero : s.refCount i = 0 := by omega
  rw [← hzero]
  simp only [update_eq_self, if_true]
  refine ⟨h.nodup, h.counted, fun j hj => ?_, fun e b j => ?_⟩ <;> simp only [update_apply] at *
  · have := h.free j
    grind
  · have := h.bound e b j
    have := h.bound e b i
    grind

theorem register : Inv g (clientRegister g s c).2 := by
  unfold clientRegister
  split
  · exact h
  rename_i type i hb
  split_ifs
  · exact h
  · exact h
  · exact h
  rename_i hc
  obtain ⟨d, -, hd⟩ := Option.bind_eq_some_iff.mp hb
  have hi := ((h.bound d type i).mp hd).2
  have hnew : c ∉ s.clients.map Prod.fst := by simpa [clientFromDevice] using hc
  refine ⟨nodup_cons.mpr ⟨hnew, h.nodup⟩, fun j => ?_, fun j hj => ?_, h.bound⟩ <;>
    simp only [update_apply] at *
  · have := h.counted j
    grind
  · have := h.free j hj
    grind

theorem unregister : Inv g (clientUnregister g s c) := by
  unfold clientUnregister
  split
  · exact h
  rename_i p hp
  have hm := mem_of_find?_eq_some hp
  refine ⟨h.nodup.sublist (erase_sublist.map _), fun j => ?_, fun j hj => ?_, h.bound⟩ <;>
    simp only [update_apply]
  · rw [countP_erase, h.counted, h.counted]
    grind
  · have := h.free j hj
    grind

theorem usable : Usable g s where
  nodup := h.nodup
  counted := h.counted
  busy d hal i hi := by
    rintro ⟨p, hp, rfl⟩
    have hpos : 0 < s.refCount p.2 := h.counted p.2 ▸ countP_pos_iff.mpr ⟨p, hp, by simp⟩
    unfold hostDeinit
    rw [hi]
    exact if_pos hpos
  served d hal c hok hp hc := by
    obtain ⟨hinv, hslot⟩ := @Inv.init g s d hal h
    obtain ⟨i, hi⟩ := hslot hok
    unfold clientRegister
    rw [hp, Option.bind_some, (hinv.bound d g.bus i).mpr ⟨rfl, hi⟩]
    dsimp only
    rw [if_neg fun hs => hs.2 hs.1, if_neg (not_le.mpr hc)]
    split <;> rfl

end Inv

end

/-- No HAL deinit fails. -/
def Deinits : Label → Prop
  | .deinit _ hal => hal = .ok
  | _ => True

theorem usable_of_deinits (g : Cfg) (labels : List Label) (h : ∀ l ∈ labels, Deinits l) :
    Usable g (labels.foldl (step g) initial) := by
  have hinv : Inv g (labels.foldl (step g) initial) := by
    refine foldlRecOn labels (step g) ⟨.nil, fun _ => rfl, fun _ _ => rfl, by simp [initial]⟩
      fun s hs l hl => ?_
    cases l with
    | init => exact hs.init.1
    | deinit d hal =>
      cases (h _ hl : hal = .ok)
      exact hs.deinit
    | register => exact hs.register
    | unregister => exact hs.unregister
  exact hinv.usable

/-- A host and its client. -/
def pair : Cfg := ⟨.spi, 1, 2, fun c => if c = 1 then some 0 else none⟩

theorem usable_of_deinits_again :
    Usable pair ([.init 0 .ok, .deinit 0 .ok, .init 0 .ok].foldl (step pair) initial) :=
  usable_of_deinits _ _ (by simp [Deinits])

/-- The HAL deinit fails, the next init returns OK, and the client finds no controller. -/
theorem failed_deinit_unbinds :
    ¬ ∀ g (labels : List Label), Usable g (labels.foldl (step g) initial) := by
  intro h
  have hr := (h pair [.init 0 .ok, .deinit 0 .io]).served 0 .ok 1
  revert hr
  decide

end MiniTree.Board.Bus
