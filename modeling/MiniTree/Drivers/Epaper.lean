import MiniTree.Board.Device

/-!
# The e-paper driver (`drivers/epaper/src/epaper_drv.c`)

The first open opens four lower devices and queries the three pins, the last close closes them.

**Results.** `balanced_of_whole`: each lower device is open once while the e-paper is, and not
otherwise, if no open fails behind the SPI device. What such an open leaves is never closed.
-/

namespace MiniTree.Drivers.Epaper

open Board Function List

inductive Lower where
  | spi | dc | rst | busy
  deriving DecidableEq, Repr

/-- A call of a lower device: `device_open`, or `GPIO_CMD_GET_LEVEL`. -/
inductive Call where
  | open (d : Lower)
  | query (d : Lower)
  deriving DecidableEq, Repr

structure State where
  lc : Lifecycle
  hwReady : Bool
  /-- the successful opens of each lower device, minus its closes -/
  balance : Lower → Int

def initial : State := ⟨.init, false, fun _ => 0⟩

/-- The calls up to the first that fails. -/
def createLoop (answer : Call → Err) : List Call → State → Err × State
  | [], e => (.ok, { e with hwReady := true })
  | c :: cs, e =>
    if answer c ≠ .ok then (answer c, e)
    else createLoop answer cs (match c with
      | .open d => { e with balance := update e.balance d (e.balance d + 1) }
      | .query _ => e)

/-- mirrors epaper_drv.c:125-160 (`epaper_hw_create`) -/
def hwCreate (answer : Call → Err) (e : State) : Err × State :=
  if e.hwReady then (.ok, e)
  else createLoop answer [.open .spi, .open .dc, .query .dc, .open .rst, .query .rst, .open .busy,
    .query .busy] e

/-- mirrors epaper_drv.c:165-178 (`epaper_hw_destroy`) -/
def hwDestroy (e : State) : State :=
  if e.hwReady then { e with hwReady := false, balance := fun d => e.balance d - 1 } else e

/-- mirrors epaper_drv.c:183-209 -/
def epaperOpen (answer : Call → Err) (e : State) : Err × State :=
  match e.lc.openBegin with
  | .error r => (r, e)
  | .ok (first, lc) =>
    if first then
      let r := hwCreate answer { e with lc := lc }
      if r.1 ≠ .ok then (r.1, { r.2 with lc := r.2.lc.openAbort }) else r
    else (.ok, { e with lc := lc })

/-- mirrors epaper_drv.c:215-235 -/
def epaperClose (e : State) : Err × State :=
  match e.lc.closeBegin with
  | .error r => (r, e)
  | .ok (last, lc) => (.ok, if last then hwDestroy { e with lc := lc } else { e with lc := lc })

inductive Label where
  | open (answer : Call → Err)
  | close

def step (e : State) : Label → State
  | .open answer => (epaperOpen answer e).2
  | .close => (epaperClose e).2

/-- Each lower device is open once if the e-paper is, and not otherwise. -/
def Balanced (e : State) : Prop := ∀ d, e.balance d = if 0 < e.lc.opens then 1 else 0

/-- The lower calls of an open all succeed, or the first one fails. -/
def Whole : Label → Prop
  | .open answer => answer (.open .spi) ≠ .ok ∨ ∀ c, answer c = .ok
  | .close => True

/-- It is closed and holds nothing, or open and holds each device once. -/
inductive Inv : State → Prop
  | closed : Inv initial
  | opened (n : Nat) : Inv ⟨⟨n + 1, 0, .live⟩, true, fun _ => 1⟩

section
variable {e : State} {answer : Call → Err} {lc : Lifecycle}

theorem hwCreate_spi (h : answer (.open .spi) ≠ .ok) : hwCreate answer ⟨lc, false, fun _ => 0⟩ =
    (answer (.open .spi), ⟨lc, false, fun _ => 0⟩) := by
  simp [hwCreate, createLoop, h]

theorem hwCreate_ok (h : ∀ c, answer c = .ok) :
    hwCreate answer ⟨lc, false, fun _ => 0⟩ = (.ok, ⟨lc, true, fun _ => 1⟩) := by
  simp only [hwCreate, createLoop, h]
  refine congrArg (fun b => (Err.ok, State.mk lc true b)) (funext fun d => ?_)
  cases d <;> rfl

theorem Inv.open (h : Inv e) (hw : Whole (.open answer)) : Inv (epaperOpen answer e).2 := by
  cases h with
  | closed =>
    have hfirst : Lifecycle.init.openBegin = .ok (true, ⟨1, 0, .live⟩) := rfl
    unfold epaperOpen initial
    rw [hfirst]
    dsimp only
    rcases hw with hspi | hall
    · rw [hwCreate_spi hspi, if_pos rfl, if_pos hspi]
      exact .closed
    · rw [hwCreate_ok hall]
      exact .opened 0
  | opened n => exact .opened (n + 1)

theorem Inv.close (h : Inv e) : Inv (epaperClose e).2 := by
  cases h with
  | closed => exact .closed
  | opened n =>
    cases n with
    | zero => exact .closed
    | succ n =>
      have hlast : Lifecycle.closeBegin ⟨(n + 1 : Nat) + 1, 0, .live⟩ =
          .ok (false, ⟨n + 1, 0, .live⟩) := by
        unfold Lifecycle.closeBegin
        rw [if_neg (by dsimp only; omega), Int.add_sub_cancel]
        rfl
      rw [epaperClose, hlast]
      exact .opened n

theorem Inv.balanced (h : Inv e) : Balanced e := by
  intro d
  cases h with
  | closed => rfl
  | opened => exact (if_pos (Int.natCast_succ_pos _)).symm

end

theorem balanced_of_whole (labels : List Label) (h : ∀ l ∈ labels, Whole l) :
    Balanced (labels.foldl step initial) := by
  have hinv : Inv (labels.foldl step initial) := by
    refine foldlRecOn labels step .closed fun e he l hl => ?_
    cases l with
    | «open» answer => exact he.open (h _ hl)
    | close => exact he.close
  exact hinv.balanced

theorem balanced_of_whole_retried :
    Balanced ([.open fun _ => .io, .open fun _ => .ok].foldl step initial) :=
  balanced_of_whole _ (by simp [Whole])

/-- The pin is not there: the SPI device stays open. -/
theorem failed_open_leaks : ¬ ∀ labels : List Label, Balanced (labels.foldl step initial) := by
  intro h
  have hspi := h [.open fun c => if c = .open .dc then .nodev else .ok] .spi
  revert hspi
  decide

end MiniTree.Drivers.Epaper
