import MiniTree.Core.LTS
import Mathlib.Data.List.GetD

/-!
# Boot-loop protection (`system_c/src/safe_state.c`, `system_c/src/system_init.c`)

A boot runs `mini_tree_pre_os_init`, which checks and increments `panic_counter`, and then
`mini_tree_start_tasks`, which clears it at its end. A reset can come at any time. It re-initialises
the static data, except what a no-init section keeps; in which section the counter lives is a
parameter of the machine, and `panicCounterSection` is the one the source gives it.

Whether each boot since the last clear went past the check is history.

**Results.** `bootloop_guarded_iff`: with the counter where the source has it, the protection is
what it promises exactly as long as no more than `BOOTLOOP_THRESHOLD` boots follow a clear: the
counter is 0 at every check, and the check never stops a boot. `guarded_of_noinit`: kept over
resets, the same code gives the protection in every run.
-/

namespace MiniTree.SafeState

open MiniTree.Core List Option

/-- `BOOTLOOP_THRESHOLD`. -/
def bootloopThreshold : Nat := 5

/-- Where a static variable lives. -/
inductive Section where
  | bss
  | noinit
  deriving DecidableEq, Repr

/-- The definition of `panic_counter` has an initialiser and no section attribute.
mirrors safe_state.c:29 -/
def panicCounterSection : Section := .bss

inductive Phase where
  /-- out of reset -/
  | reset
  /-- `mini_tree_pre_os_init` is through -/
  | preOs
  /-- `mini_tree_start_tasks` is through -/
  | running
  /-- the loop at the end of `enter_safe_state` -/
  | safeState
  deriving DecidableEq, Repr

structure Machine where
  panicCounter : BitVec 32
  osInitialized : Bool
  phase : Phase
  /-- for each boot since the last clear, whether it went past the check -/
  boots : List Bool
  deriving DecidableEq

/-- mirrors safe_state.c:35-43 (`safe_state_check_bootloop`) -/
def checkBootloop (m : Machine) : Machine × Bool :=
  if bootloopThreshold ≤ m.panicCounter.toNat then ({ m with phase := .safeState }, false)
  else ({ m with panicCounter := m.panicCounter + 1 }, true)

/-- mirrors safe_state.c:48-51 (`safe_state_clear_bootloop`) -/
def clearBootloop (m : Machine) : Machine := { m with panicCounter := 0, boots := [] }

/-- `bus` tells whether `event_bus_init` succeeds.
mirrors system_init.c:61-89 (`mini_tree_pre_os_init`) -/
def preOsInit (m : Machine) (bus : Bool) : Machine :=
  match checkBootloop m with
  | (m, false) => { m with boots := m.boots ++ [false] }
  | (m, true) =>
    let m := { m with boots := m.boots ++ [true] }
    if bus then { m with osInitialized := true, phase := .preOs }
    else { m with phase := .safeState }

/-- mirrors system_init.c:94-129 (`mini_tree_start_tasks`) -/
def startTasks (m : Machine) : Machine := { clearBootloop m with phase := .running }

/-- The startup code. -/
def reset (sec : Section) (m : Machine) : Machine where
  panicCounter := match sec with
    | .bss => 0
    | .noinit => m.panicCounter
  osInitialized := false
  phase := .reset
  boots := m.boots

inductive Label where
  | preOsInit (bus : Bool)
  | startTasks
  | reset

def next (sec : Section) (m : Machine) : Label → Option Machine
  | .preOsInit bus => if m.phase = .reset then some (preOsInit m bus) else none
  | .startTasks => if m.phase = .preOs then some (startTasks m) else none
  | .reset => some (reset sec m)

/-- Out of the first reset, with the counter cleared. -/
def cleared : Machine := ⟨0, false, .reset, []⟩

def system (sec : Section) : LTS Machine Label := LTS.ofFn (· = cleared) (next sec)

/-- The first `BOOTLOOP_THRESHOLD` boots after a clear go past the check, no later one does, and a
clear starts the count again. -/
structure Guarded (m : Machine) : Prop where
  boots : ∀ i p, m.boots[i]? = some p → p = decide (i < bootloopThreshold)
  clear : (clearBootloop m).panicCounter = 0

section Runs

variable {m m' : Machine}

theorem preOsInit_cases (m : Machine) (bus : Bool) :
    (bootloopThreshold ≤ m.panicCounter.toNat ∧ (preOsInit m bus).boots = m.boots ++ [false] ∧
        (preOsInit m bus).panicCounter = m.panicCounter ∧ (preOsInit m bus).phase ≠ .reset) ∨
      (m.panicCounter.toNat < bootloopThreshold ∧ (preOsInit m bus).boots = m.boots ++ [true] ∧
        (preOsInit m bus).panicCounter = m.panicCounter + 1 ∧ (preOsInit m bus).phase ≠ .reset) := by
  unfold preOsInit checkBootloop
  by_cases h : bootloopThreshold ≤ m.panicCounter.toNat
  · left
    simp [h]
  right
  rw [if_neg h]
  refine ⟨by omega, ?_⟩
  cases bus <;> simp

/-- A clear and the first reset leave the same counts. -/
theorem system_holds {sec : Section} {P : Machine → Prop} (hr : (system sec).Reachable m)
    (hclear : ∀ os ph, P ⟨0, os, ph, []⟩)
    (hboot : ∀ m bus, P m → m.phase = .reset → P (preOsInit m bus))
    (hreset : ∀ m, P m → P (reset sec m)) : P m := by
  induction hr with
  | init h0 => exact h0 ▸ hclear ..
  | @step m m' l _ hs ih =>
    change next sec m l = some m' at hs
    cases l with
    | preOsInit bus =>
      obtain ⟨hp, rfl⟩ := ite_some_none_eq_some.mp hs
      exact hboot m bus ih hp
    | startTasks =>
      obtain ⟨-, rfl⟩ := ite_some_none_eq_some.mp hs
      exact hclear ..
    | reset =>
      cases hs
      exact hreset m ih

/-! ## The counter in ordinary memory -/

/-- Every boot finds the counter at 0. -/
structure Ordinary (m : Machine) : Prop where
  counter : m.phase = .reset → m.panicCounter = 0
  passed : ∀ p ∈ m.boots, p = true

theorem Ordinary.preOsInit (h : Ordinary m) (hp : m.phase = .reset) (bus : Bool) :
    Ordinary (preOsInit m bus) := by
  have hc : m.panicCounter.toNat = 0 := by
    rw [h.counter hp]
    rfl
  rcases preOsInit_cases m bus with ⟨hle, -⟩ | ⟨-, hb, -, hph⟩
  · exact absurd hle (by rw [hc]; decide)
  refine ⟨fun he => absurd he hph, ?_⟩
  rw [hb]
  exact forall_mem_append.mpr ⟨h.passed, forall_mem_singleton.mpr rfl⟩

theorem ordinary_reachable (hr : (system .bss).Reachable m) : Ordinary m :=
  system_holds hr (fun _ _ => ⟨fun _ => rfl, fun _ hm => (not_mem_nil hm).elim⟩)
    (fun _ bus h hp => h.preOsInit hp bus) (fun _ h => ⟨fun _ => rfl, h.passed⟩)

theorem bootloop_guarded_iff (hr : (system panicCounterSection).Reachable m) :
    Guarded m ↔ m.boots.length ≤ bootloopThreshold := by
  have ho := ordinary_reachable hr
  constructor
  · intro hg
    by_contra hlt
    have hi : bootloopThreshold < m.boots.length := Nat.lt_of_not_le hlt
    have hp := hg.boots _ _ (List.getElem?_eq_getElem hi)
    rw [ho.passed _ (getElem_mem hi)] at hp
    exact absurd hp (by decide)
  · intro hle
    refine ⟨fun i p hp => ?_, rfl⟩
    obtain ⟨hi, he⟩ := List.getElem?_eq_some_iff.mp hp
    have ht : p = true := ho.passed p (he ▸ getElem_mem hi)
    rw [ht, decide_eq_true (by omega)]

theorem bootloop_guarded_iff_clear :
    ∃ m, (system panicCounterSection).Reachable m ∧ Guarded m ∧ m.boots = [true, true] := by
  obtain ⟨m, hr, hp⟩ := LTS.Reachable.of_exec (· = cleared)
    (next panicCounterSection) cleared
    [.preOsInit true, .startTasks, .reset, .preOsInit false, .reset, .preOsInit true]
    (fun m => m.boots = [true, true]) rfl (by decide +kernel)
  have hb : m.boots = [true, true] := hp
  refine ⟨m, hr, (bootloop_guarded_iff hr).mpr ?_, hb⟩
  rw [hb]
  decide

/-- The sixth boot in a row goes past the check. -/
theorem bootloop_not_detected :
    ∃ m, (system panicCounterSection).Reachable m ∧ m.phase = .preOs ∧ ¬ Guarded m := by
  obtain ⟨m, hr, hph, hb⟩ := LTS.Reachable.of_exec (· = cleared)
    (next panicCounterSection) cleared
    [.preOsInit true, .reset, .preOsInit true, .reset, .preOsInit true, .reset, .preOsInit true,
      .reset, .preOsInit true, .reset, .preOsInit true]
    (fun m => m.phase = .preOs ∧ m.boots[5]? = some true) rfl (by decide +kernel)
  refine ⟨m, hr, hph, fun hg => ?_⟩
  exact absurd (hg.boots 5 true hb) (by decide)

/-! ## The counter in a no-init section -/

/-- The counter counts the boots up to the threshold. -/
structure Kept (m : Machine) : Prop where
  counter : m.panicCounter.toNat = min m.boots.length bootloopThreshold
  boots : m.boots = (range m.boots.length).map fun i => decide (i < bootloopThreshold)

theorem Kept.preOsInit (h : Kept m) (bus : Bool) : Kept (preOsInit m bus) := by
  have hc := h.counter
  have happend : ∀ p, decide (m.boots.length < bootloopThreshold) = p → m.boots ++ [p] =
      (range (m.boots ++ [p]).length).map fun i => decide (i < bootloopThreshold) := by
    rintro p rfl
    rw [length_append, length_singleton, range_succ, map_append, ← h.boots]
    rfl
  unfold bootloopThreshold at hc happend
  rcases preOsInit_cases m bus with ⟨hle, hb, hcnt, -⟩ | ⟨hlt, hb, hcnt, -⟩
  · unfold bootloopThreshold at hle
    have hlen : 5 ≤ m.boots.length := by omega
    refine ⟨?_, ?_⟩
    · rw [hb, hcnt, hc, length_append]
      unfold bootloopThreshold
      omega
    · rw [hb]
      exact happend false (decide_eq_false (by omega))
  · unfold bootloopThreshold at hlt
    refine ⟨?_, ?_⟩
    · have hone : (1 : BitVec 32).toNat = 1 := rfl
      rw [hb, hcnt, BitVec.toNat_add, hone, length_append, length_singleton]
      unfold bootloopThreshold
      omega
    · rw [hb]
      exact happend true (decide_eq_true (by omega))

theorem guarded_of_noinit (hr : (system .noinit).Reachable m) : Guarded m := by
  have hk : Kept m := system_holds hr (fun _ _ => ⟨rfl, rfl⟩)
    (fun _ bus h _ => h.preOsInit bus) (fun _ h => ⟨h.counter, h.boots⟩)
  refine ⟨fun i p hp => ?_, rfl⟩
  rw [hk.boots, getElem?_map] at hp
  obtain ⟨j, hj, rfl⟩ := map_eq_some_iff.mp hp
  obtain ⟨-, rfl⟩ := List.getElem?_eq_some_iff.mp hj
  rw [getElem_range]

end Runs

end MiniTree.SafeState
