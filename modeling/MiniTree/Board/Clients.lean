import MiniTree.Board.Device
import MiniTree.Core.LTS

/-!
# Several clients of one device

Clients open, close, suspend and resume one device whose driver counts its opens. The
driver's count never passes one: `device_open` on a `RUNNING` device returns before it
reaches the driver. `held` records what each client believes, one for each of its opens
that returned `MINI_OK` and is not yet closed.

**Results.** `references_kept_iff`: along the runs in which a device is only closed by its
last holder and not while suspended, a step keeps the hardware open for every holder and
leaves a released device `PROBED` exactly when it is such a step.
-/

namespace MiniTree.Board

open MiniTree.Core Function

structure Clients where
  dev : Device
  held : Nat → Nat

namespace Clients

/-- A call by client `i`, with what the hardware answers. -/
inductive Label where
  | open (i : Nat) (hw : Err)
  | close (i : Nat)
  | suspend (i : Nat) (r : Err)
  | resume (i : Nat) (r : Err)
  deriving DecidableEq, Repr

section
variable (s : Clients) (i : Nat) (l : Label)

def gain : Err → Nat → Nat
  | .ok => update s.held i (s.held i + 1)
  | _ => s.held

def lose : Err → Nat → Nat
  | .ok => update s.held i (s.held i - 1)
  | _ => s.held

def step : Label → Option Clients
  | .open i hw => let r := s.dev.deviceOpen hw; some ⟨r.2, s.gain i r.1⟩
  | .close i => let r := s.dev.deviceClose; some ⟨r.2, s.lose i r.1⟩
  | .suspend _ r => some { s with dev := (s.dev.deviceSuspend r).2 }
  | .resume _ r => some { s with dev := (s.dev.deviceResume r).2 }

/-- A device behind its probe: nobody has it open. The driver has `open` and `close`, and
may have `suspend` and `resume`. -/
def Probed : Prop := (∃ suspends resumes slot,
    s.dev = ⟨.probed, true, some ⟨true, true, suspends, resumes⟩, some slot, .init, false⟩) ∧
  ∀ i, s.held i = 0

def clients : LTS Clients Label := .ofFn Probed step

/-- After the step from `s`, the hardware is open for every client that holds the device,
and a close that returned `MINI_OK` and left no holder left the device `PROBED`. -/
def Kept (s' : Clients) : Prop := (∀ i, 0 < s'.held i → s'.dev.hwReady = true) ∧
  (∀ i, l = .close i → s.dev.deviceClose.1 = .ok → (∀ j, s'.held j = 0) → s'.dev.status = .probed)

/-- A close comes when no other reference is out, and not on a suspended device. -/
def LastHolder : Label → Prop
  | .close i => s.held i ≤ 1 ∧ (∀ j, j ≠ i → s.held j = 0) ∧ s.dev.status ≠ .suspended
  | _ => True

end

/-! ## The two counts agree -/

/-- What never changes in a run: the device has its lock, its driver and a live
lifecycle. -/
def Bound (d : Device) : Prop :=
  d.lock = true ∧ (∃ suspends resumes, d.ops = some ⟨true, true, suspends, resumes⟩) ∧
    d.priv.isNone = false ∧ d.lc.state = .live

inductive Counted (s : Clients) : Prop
  | unused : (∀ i, s.held i = 0) → s.dev.status = .probed → s.dev.lc.opens = 0 →
      s.dev.hwReady = false → Counted s
  | used (i : Nat) : 0 < s.held i → s.dev.status = .running ∨ s.dev.status = .suspended →
      s.dev.lc.opens = 1 → s.dev.hwReady = true → Counted s

section
variable {s : Clients} {i : Nat} {d : Device}

/-- `device_open` on a device nobody uses: the driver opens the hardware, or nothing
changes. -/
theorem deviceOpen_unused (hb : Bound d) (hs : d.status = .probed)
    (ho : d.lc.opens = 0) (hh : d.hwReady = false) (hw : Err) : d.deviceOpen hw = if hw = .ok then
        (.ok, { d with status := .running, lc := { d.lc with opens := 1 }, hwReady := true })
      else (hw, d) := by
  obtain ⟨hlock, ⟨su, re, hops⟩, hpriv, hlive⟩ := hb
  obtain ⟨status, lock, ops, priv, ⟨opens, io, state⟩, ready⟩ := d
  simp only at hlock hops hpriv hlive hs ho hh
  subst hlock hops hlive hs ho hh
  cases hw <;>
    simp [Device.deviceOpen, Device.drvOpen, Lifecycle.openBegin, Device.hwCreate, hpriv,
      Lifecycle.openAbort, Device.setStatus, canTransit]

/-- On a device in use `device_open` returns early. -/
theorem deviceOpen_used (hb : Bound d)
    (hs : d.status = .running ∨ d.status = .suspended) (hw : Err) :
    d.deviceOpen hw = (if d.status = .running then .ok else .io, d) := by
  obtain ⟨hlock, ⟨su, re, hops⟩, -⟩ := hb
  unfold Device.deviceOpen
  rcases hs with hs | hs <;> simp [hlock, hops, hs]

theorem deviceClose_unused (hb : Bound d) (hs : d.status = .probed) : d.deviceClose = (.io, d) := by
  obtain ⟨hlock, ⟨su, re, hops⟩, -⟩ := hb
  unfold Device.deviceClose
  simp [hlock, hops, hs]

/-- `device_close` destroys the hardware, whoever calls it. A suspended device keeps its
status. -/
theorem deviceClose_used (hb : Bound d)
    (hs : d.status = .running ∨ d.status = .suspended) (ho : d.lc.opens = 1) : d.deviceClose =
      (.ok, { d with
        status := if d.status = .running then .probed else .suspended
        lc := { d.lc with opens := 0 }
        hwReady := false }) := by
  obtain ⟨hlock, ⟨su, re, hops⟩, hpriv, hlive⟩ := hb
  obtain ⟨status, lock, ops, priv, ⟨opens, io, state⟩, ready⟩ := d
  simp only at hlock hops hpriv hlive hs ho
  subst hlock hops hlive ho
  rcases hs with rfl | rfl <;>
    simp [Device.deviceClose, Device.drvClose, Lifecycle.closeBegin, hpriv, Device.hwDestroy,
      Device.setStatus, canTransit]

theorem deviceSuspend_cases (d : Device) (r : Err) : (d.deviceSuspend r).2 = d ∨
      d.status = .running ∧ (d.deviceSuspend r).2 = { d with status := .suspended } := by
  unfold Device.deviceSuspend
  split
  · exact .inl rfl
  split
  · exact .inl rfl
  rename_i hs
  split
  · refine .inr ⟨Decidable.not_not.mp hs, ?_⟩
    unfold Device.setStatus
    rw [Decidable.not_not.mp hs]
    rfl
  · exact .inl rfl

theorem deviceResume_cases (d : Device) (r : Err) : (d.deviceResume r).2 = d ∨
      d.status = .suspended ∧ (d.deviceResume r).2 = { d with status := .running } := by
  unfold Device.deviceResume
  split
  · exact .inl rfl
  split
  · exact .inl rfl
  rename_i hs
  split
  · refine .inr ⟨Decidable.not_not.mp hs, ?_⟩
    unfold Device.setStatus
    rw [Decidable.not_not.mp hs]
    rfl
  · exact .inl rfl

theorem Bound.of_eq {d d' : Device} (h : Bound d) (hlock : d'.lock = d.lock) (hops : d'.ops = d.ops)
    (hpriv : d'.priv = d.priv) (hstate : d'.lc.state = d.lc.state) : Bound d' := by
  unfold Bound
  rw [hlock, hops, hpriv, hstate]
  exact h

/-- A device in use changes its status at most. -/
theorem Counted.restatus {d : Device} {st st' : Status} (hb : Bound s.dev) (hc : Counted s)
    (h : d = s.dev ∨ s.dev.status = st ∧ d = { s.dev with status := st' }) (hst : st ≠ .probed)
    (hst' : st' = .running ∨ st' = .suspended) : Bound d ∧ Counted { s with dev := d } := by
  rcases h with rfl | ⟨hs, rfl⟩
  · exact ⟨hb, hc⟩
  rcases hc with ⟨-, hp, -, -⟩ | ⟨j, hj, -, ho, hh⟩
  · exact absurd (hs.symm.trans hp) hst
  · exact ⟨hb.of_eq rfl rfl rfl rfl, .used j hj hst' ho hh⟩

/-- Every step but a close; a failed one changes nothing. -/
theorem step_cases {s s' : Clients} {l : Label} (hb : Bound s.dev) (hc : Counted s)
    (hs : step s l = some s') (hl : ∀ i, l ≠ .close i) : Bound s'.dev ∧ Counted s' := by
  cases l with
  | close i => exact absurd rfl (hl i)
  | «open» i hw =>
    cases hs
    rcases hc with ⟨hheld, hst, ho, hh⟩ | ⟨j, hj, hst, ho, hh⟩
    · rw [deviceOpen_unused hb hst ho hh]
      split
      · refine ⟨hb.of_eq rfl rfl rfl rfl, .used i ?_ (.inl rfl) rfl rfl⟩
        simp [gain]
      · rename_i hw'
        refine ⟨hb, .unused ?_ hst ho hh⟩
        cases hw <;> first | exact absurd rfl hw' | exact hheld
    rw [deviceOpen_used hb hst]
    refine ⟨hb, .used j ?_ hst ho hh⟩
    split
    · by_cases hji : j = i
      · subst hji
        simp [gain]
      · simpa [gain, hji] using hj
    · exact hj
  | suspend i r =>
    cases hs
    exact hc.restatus hb (deviceSuspend_cases s.dev r) nofun (.inr rfl)
  | resume i r =>
    cases hs
    exact hc.restatus hb (deviceResume_cases s.dev r) nofun (.inl rfl)

/-- The last holder closes a running device. -/
theorem close_lastHolder (hb : Bound s.dev) (hc : Counted s) (hl : LastHolder s (.close i)) :
    Bound s.dev.deviceClose.2 ∧ Counted ⟨s.dev.deviceClose.2, s.lose i s.dev.deviceClose.1⟩ := by
  obtain ⟨hone, hrest, hns⟩ := hl
  rcases hc with ⟨hheld, hst, ho, hh⟩ | ⟨j, hj, hst, ho, hh⟩
  · rw [deviceClose_unused hb hst]
    exact ⟨hb, .unused hheld hst ho hh⟩
  have hrun : s.dev.status = .running := hst.resolve_right hns
  rw [deviceClose_used hb hst ho]
  refine ⟨hb.of_eq rfl rfl rfl rfl, .unused (fun k => ?_) (if_pos hrun) rfl rfl⟩
  by_cases hk : k = i
  · subst hk
    simp only [lose, update_self]
    omega
  · simp only [lose, update_of_ne hk]
    exact hrest k hk

theorem counted_isInvariant :
    (clients.restrict LastHolder).IsInvariant fun s => Bound s.dev ∧ Counted s where
  init s hs := by
    obtain ⟨⟨su, re, slot, hd⟩, hheld⟩ := hs
    refine ⟨?_, .unused hheld ?_ ?_ ?_⟩ <;> rw [hd]
    · exact ⟨rfl, ⟨su, re, rfl⟩, rfl, rfl⟩
    · rfl
  step s l s' h hstep := by
    obtain ⟨hok, hs⟩ := hstep
    cases l with
    | close i =>
      cases hs
      exact close_lastHolder h.1 h.2 hok
    | «open» i hw | suspend i r => exact step_cases h.1 h.2 hs (fun _ => Label.noConfusion)
    | resume i r => exact step_cases h.1 h.2 hs (fun _ => Label.noConfusion)

theorem Counted.hwReady (h : Counted s) {i : Nat} (hi : 0 < s.held i) : s.dev.hwReady = true := by
  rcases h with ⟨hheld, -⟩ | ⟨-, -, -, -, hh⟩
  · rw [hheld i] at hi
    omega
  · exact hh

end

theorem references_kept_iff {s : Clients} (hr : (clients.restrict LastHolder).Reachable s)
    {l : Label} {s' : Clients} (hs : step s l = some s') : Kept s l s' ↔ LastHolder s l := by
  obtain ⟨hb, hc⟩ := counted_isInvariant.holds hr
  by_cases hclose : ∃ i, l = .close i
  · obtain ⟨i, rfl⟩ := hclose
    cases hs
    constructor
    · rintro ⟨hready, hprobed⟩
      rcases hc with ⟨hheld, hst, -, -⟩ | ⟨j, hj, hst, ho, -⟩
      · refine ⟨by rw [hheld i]; omega, fun k _ => hheld k, ?_⟩
        rw [hst]
        decide
      -- the hardware is gone, so nobody may hold it any more
      rw [deviceClose_used hb hst ho] at hready hprobed
      have hnone : ∀ k, s.lose i .ok k = 0 := by
        intro k
        by_contra hk
        exact absurd (hready k (Nat.pos_of_ne_zero hk)) (by simp)
      refine ⟨?_, fun k hk => ?_, fun hsus => ?_⟩
      · have := hnone i
        simp only [lose, update_self] at this
        omega
      · have := hnone k
        simpa only [lose, update_of_ne hk] using this
      · have := hprobed i rfl rfl hnone
        simp [hsus] at this
    · intro hl
      obtain ⟨-, hc'⟩ := close_lastHolder hb hc hl
      refine ⟨fun k hk => hc'.hwReady hk, fun k _ _ hzero => ?_⟩
      rcases hc' with ⟨-, hst, -, -⟩ | ⟨j, hj, -, -, -⟩
      · exact hst
      · rw [hzero j] at hj
        omega
  · have hne : ∀ i, l ≠ .close i := fun i he => hclose ⟨i, he⟩
    obtain ⟨-, hc'⟩ := step_cases hb hc hs hne
    refine iff_of_true ⟨fun k hk => hc'.hwReady hk, fun k hk => absurd hk (hne k)⟩ ?_
    cases l with
    | close i => exact absurd rfl (hne i)
    | «open» | suspend | resume => trivial

/-- A device whose driver has all four operations, behind its probe. -/
def fresh : Clients :=
  ⟨⟨.probed, true, some ⟨true, true, true, true⟩, some 0, .init, false⟩, fun _ => 0⟩

theorem fresh_probed : Probed fresh := ⟨⟨true, true, 0, rfl⟩, fun _ => rfl⟩

def opened : Clients :=
  ⟨⟨.running, true, some ⟨true, true, true, true⟩, some 0, ⟨1, 0, .live⟩, true⟩,
    update (fun _ => 0) 0 1⟩

/-- A client that has the device alone closes it. -/
theorem references_kept_alone : ∃ s', (clients.restrict LastHolder).Reachable opened ∧
      step opened (.close 0) = some s' ∧ Kept opened (.close 0) s' := by
  have hr : (clients.restrict LastHolder).Reachable opened :=
    .step (l := .open 0 .ok) (.init fresh_probed) ⟨trivial, rfl⟩
  refine ⟨_, hr, rfl, (references_kept_iff hr rfl).mpr ⟨by decide, fun j hj => ?_, by decide⟩⟩
  exact update_of_ne (f := fun _ => 0) hj 1

/-- A second client's open is not counted: the close of the first takes the hardware
from it. -/
theorem references_lost_on_first_close :
    ¬ ∀ s, clients.Reachable s → ∀ l s', step s l = some s' → Kept s l s' := by
  intro h
  obtain ⟨s, hr, hp⟩ := LTS.Reachable.of_exec Probed step fresh
    [.open 0 .ok, .open 1 .ok]
    (fun s => (step s (.close 0)).any fun t : Clients => decide (0 < t.held 1) && !t.dev.hwReady)
    fresh_probed (by decide +kernel)
  obtain ⟨s', hs', hlost⟩ := (Option.any_eq_true _ _).mp hp
  rw [Bool.and_eq_true, decide_eq_true_iff, Bool.not_eq_true'] at hlost
  have := (h s hr _ s' hs').1 1 hlost.1
  rw [hlost.2] at this
  cases this

end Clients

end MiniTree.Board
