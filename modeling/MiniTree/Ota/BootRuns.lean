import MiniTree.Ota.Boot

/-!
# Runs of the boot state machine

Resets, downloads, activations and confirms in any order.

**Results.** `trial_once`: when every state store succeeds, rollback is enabled and nothing is
activated over a pending image, an activated image is booted at most once without a confirm, the
reset behind that boot rolls back, and a confirmed image stays until the next activation.
`download_spares_booted`: when the application has refreshed its own state word, the reset stored
its rollback if it made one, and no download comes between an activation and the next reset, none
touches the partition that is running.
`rollback_lands_good`: when nothing is downloaded or activated over a pending image, and
only the running image is confirmed, a rollback lands on the factory image or on one that was
confirmed while it ran.
-/

namespace MiniTree.Ota.Boot

open MiniTree.Core Word Bool Option List
open LTS.Reachable (of_execOk of_exec)

variable (cfg : BootCfg)

/-- Whether the state store of a step succeeds. -/
def Label.stores : Label → Bool
  | .setOpen _ | .setRollback _ => true
  | .reset stores | .download _ _ _ _ stores | .downloadCut _ _ _ _ stores | .startOta _ stores
  | .confirmOta stores => stores

def RollbackEnabled (b : Boot) : Label → Prop
  | .startOta .. => b.ram.isRollback = true
  | _ => True

instance (b : Boot) (l : Label) : Decidable (RollbackEnabled b l) := by
  unfold RollbackEnabled
  split <;> infer_instance

/-! ## What a step can do -/

section

variable {cfg} {b b' : Boot}

/-- What boots is kept, and all that is known of it. -/
structure Same (b b' : Boot) : Prop where
  mode : b'.ram.mode = b.ram.mode
  record : (b'.record.getD 0).mode = (b.record.getD 0).mode
  areas : b'.areas = b.areas
  history : b'.history = b.history

theorem Same.synced (h : Same b b') (hb : Synced b) : Synced b' :=
  (h.mode.trans hb).trans h.record.symm

theorem same_bitPut (b : Boot) {bit : Nat} (hb : bit < 6) (value : Bool) :
    Same b { b with ram := b.ram.bitPut bit value } where
  mode := mode_bitPut hb
  record := rfl
  areas := rfl
  history := rfl

theorem same_failSet (b : Boot) (code : Word) (stores : Bool) : Same b (b.failSet code stores) where
  mode := mode_fail
  record := by
    cases stores with
    | false => rfl
    | true => exact mode_stored.trans mode_fail
  areas := rfl
  history := rfl

def activate (b : Boot) (stores : Bool) : Boot :=
  { b.stateUpdate maskAll b.activation stores with history := { b.history with
      activated := true
      boots := if stores then Function.update b.history.boots b.inactive (some 0) else b.history.boots
      confirmed := if stores then none else b.history.confirmed } }

inductive Move (b : Boot) : Label → Boot → Prop
  | same {l b'} : Same b b' → Move b l b'
  | reset {stores} : Move b (.reset stores) (b.reset stores)
  | download {opens erases totalLen answers stores b' b''} : Fetched b.inactive b b' → Same b' b'' →
    Move b (.download opens erases totalLen answers stores) b''
  | downloadCut {opens erases totalLen answers stores b'} : Fetched b.inactive b b' →
    Move b (.downloadCut opens erases totalLen answers stores) (b'.reset stores)
  | startOta {opens stores} : Move b (.startOta opens stores) (b.activate stores)
  | confirmOta {stores} : Move b (.confirmOta stores) (b.confirmOta stores)

theorem move_of_next {l : Label} (hn : next cfg b l = some b') : Move b l b' := by
  have hkept : Same b b := ⟨rfl, rfl, rfl, rfl⟩
  cases l <;> cases hn
  case setOpen value => exact .same (same_bitPut b (by decide) value)
  case setRollback value => exact .same (same_bitPut b (by decide) value)
  case reset stores => exact .reset
  case download opens erases totalLen answers stores =>
    have hf := fetched_fetch cfg b opens erases totalLen answers
    unfold Boot.download
    split
    · exact .same hkept
    split
    · rename_i he
      rw [he] at hf
      exact .download hf (same_failSet ..)
    · rename_i he
      rw [he] at hf
      exact .download hf ⟨rfl, rfl, rfl, rfl⟩
  case downloadCut opens erases totalLen answers stores =>
    unfold Boot.downloadCut
    split
    · exact .downloadCut (.refl b)
    · exact .downloadCut (fetched_fetch ..)
  case startOta opens stores =>
    unfold Boot.startOta
    split
    · exact .same hkept
    split
    · exact .same (same_failSet ..)
    split
    · exact .same (same_failSet ..)
    · exact .startOta
  case confirmOta stores => exact .confirmOta

end

/-! ## The trial boot -/

structure TrialOnce (b : Boot) : Prop where
  once : ∀ p k, b.history.boots p = some k → k ≤ 1
  rollback : ∀ p, b.history.boots p = some 1 → b.history.booted = p →
    (b.reset true).history.booted = !p ∧ (b.reset true).ram.mode = ⟨!p, false, false⟩ ∧
      (b.reset true).ram.failGet = failVerify ∧
      ((b.reset true).record.getD 0).mode = ⟨!p, false, false⟩ ∧
      ((b.reset true).record.getD 0).failGet = failVerify
  stays : ∀ p, b.history.confirmed = some p → (b.reset true).history.booted = p

/-- Every store succeeds and rollback is enabled. -/
def Stored (b : Boot) (l : Label) : Prop := l.stores = true ∧ RollbackEnabled b l
  deriving Decidable

/-- Nothing is activated over a pending image. -/
def OverSettled (b : Boot) : Label → Prop
  | .startOta .. => b.ram.pending = false
  | _ => True

instance (b : Boot) (l : Label) : Decidable (OverSettled b l) := by
  unfold OverSettled
  split <;> infer_instance

variable {cfg} {b b' : Boot} {l : Label} {area : Bool}

/-- An unconfirmed image is the pending one, and the other partition has none; or it is not current
and was rolled back from. -/
structure TrialOk (m : Mode) (h : History) : Prop where
  pending : m.pending = true → h.boots m.current = some (if m.trial then 1 else 0) ∧
    h.boots (!m.current) = none ∧ (m.trial = true → h.booted = m.current)
  settled : m.pending = false → h.boots m.current = none ∧
    ∀ k, h.boots (!m.current) = some k → k ≤ 1 ∧ h.booted = m.current
  confirmed : ∀ p, h.confirmed = some p → m = ⟨p, false, false⟩

structure TrialInv (b : Boot) : Prop where
  synced : Synced b
  ok : TrialOk b.ram.mode b.history

theorem TrialInv.same (h : TrialInv b) (hs : Same b b') : TrialInv b' :=
  ⟨hs.synced h.synced, by rw [hs.history, hs.mode]; exact h.ok⟩

theorem Fetched.synced (hf : Fetched area b b') (h : Synced b) : Synced b' := by
  unfold Synced
  rw [hf.ram, hf.record]
  exact h

theorem TrialInv.fetched (h : TrialInv b) (hf : Fetched b.inactive b b') : TrialInv b' := by
  obtain ⟨ops, -, hh⟩ := hf.history
  have hcur : b'.history.boots b.ram.mode.current = b.history.boots b.ram.mode.current :=
    (hf.boots _).resolve_right fun hi => not_ne_self _ hi.1.symm
  refine ⟨hf.synced h.synced, ?_⟩
  rw [hf.ram, hh]
  refine ⟨fun hp => ?_, fun hp => ?_, h.ok.confirmed⟩
  · obtain ⟨h1, h2, h3⟩ := h.ok.pending hp
    exact ⟨hcur.trans h1, (hf.boots _).elim (·.trans h2) (·.2), h3⟩
  · obtain ⟨h1, h2⟩ := h.ok.settled hp
    refine ⟨hcur.trans h1, fun k hk => ?_⟩
    rcases hf.boots (!b.ram.mode.current) with he | ⟨-, he⟩
    · exact h2 k (he.symm.trans hk)
    · cases he.symm.trans hk

theorem reset_spec (b : Boot) (stores : Bool) :
    (b.reset stores).ram.mode = resetMode (b.record.getD 0).mode ∧
      (b.reset stores).history.booted = (resetMode (b.record.getD 0).mode).current ∧
      (b.reset stores).areas = b.areas ∧ (stores = true → Synced (b.reset stores)) := by
  obtain ⟨hm, ha, -, hs⟩ := stateLoad_spec { b with ram := 0, downloadedSize := 0 } stores
  exact ⟨hm, congrArg Mode.current hm, ha, hs⟩

theorem stateLoad_record (b : Boot) : (b.stateLoad false).record = b.record := by
  obtain ⟨-, hr, -, -⟩ := b.stateReload_mode
  unfold stateLoad
  dsimp only
  split
  · exact hr
  split
  · exact hr
  split <;> exact hr

theorem reset_history (b : Boot) (stores : Bool) : (b.reset stores).history = { b.history with
      booted := (resetMode (b.record.getD 0).mode).current
      activated := false
      boots := fun p => (b.history.boots p).map fun k =>
        if (resetMode (b.record.getD 0).mode).current = p then k + 1 else k } := by
  obtain ⟨hm, -, hh, -⟩ := stateLoad_spec { b with ram := 0, downloadedSize := 0 } stores
  have hc : ({ b with ram := 0, downloadedSize := 0 }.stateLoad stores).ram.current =
      (resetMode (b.record.getD 0).mode).current := congrArg Mode.current hm
  unfold reset
  dsimp only
  rw [hc, hh]

theorem TrialInv.reset (h : TrialInv b) : TrialInv (b.reset true) := by
  obtain ⟨hm, -, -, hs⟩ := reset_spec b true
  have hh := reset_history b true
  rw [← h.synced] at hm hh
  refine ⟨hs rfl, ?_⟩
  have hok := h.ok
  rw [hm, hh]
  clear hm hh hs
  generalize b.ram.mode = m at hok
  obtain ⟨c, pending, trial⟩ := m
  cases pending with
  | false =>
    obtain ⟨h1, h2⟩ := hok.settled rfl
    refine ⟨fun hp => (Bool.noConfusion hp), fun _ => ⟨by simp [resetMode, h1], ?_⟩, hok.confirmed⟩
    intro k hk
    obtain ⟨k', hk', rfl⟩ := map_eq_some_iff.mp hk
    exact ⟨by simpa [resetMode] using (h2 k' hk').1, rfl⟩
  | true =>
    obtain ⟨h1, h2, -⟩ := hok.pending rfl
    have hconf : ∀ p, b.history.confirmed ≠ some p := fun p hp => by cases hok.confirmed p hp
    cases trial with
    | false =>
      exact ⟨fun _ => ⟨by simp [resetMode, h1], by simp [resetMode, h2], fun _ => rfl⟩,
        fun hp => (Bool.noConfusion hp), fun p hp => absurd hp (hconf p)⟩
    | true =>
      refine ⟨fun hp => (Bool.noConfusion hp), fun _ => ⟨by simp [resetMode, h2], ?_⟩,
        fun p hp => absurd hp (hconf p)⟩
      intro k hk
      simp [resetMode, h1] at hk
      exact ⟨hk.ge, rfl⟩

theorem activation_mode (b : Boot) : b.activation.mode = ⟨b.inactive, b.ram.isRollback, false⟩ := by
  unfold activation
  cases b.inactive <;> cases b.ram.isRollback <;> rfl

theorem TrialInv.activate (h : TrialInv b) (hr : b.ram.isRollback = true)
    (hp : b.ram.pending = false) : TrialInv (b.activate true) := by
  have hm : (b.activate true).ram.mode = _ := mode_all
  rw [activation_mode, hr] at hm
  have hne : (!b.inactive) = b.ram.current := Bool.not_not _
  refine ⟨h.synced.update _ _, ?_⟩
  rw [hm]
  refine ⟨fun _ => ⟨Function.update_self .., ?_, fun ht => (Bool.noConfusion ht)⟩,
    fun hp => (Bool.noConfusion hp), fun p hc => by cases hc⟩
  refine (Function.update_of_ne (not_ne_self _) ..).trans ?_
  exact (congrArg _ hne).trans (h.ok.settled hp).1

theorem TrialInv.confirmOta (h : TrialInv b) : TrialInv (b.confirmOta true) := by
  have hm : (b.confirmOta true).ram.mode = ⟨b.ram.current, false, false⟩ := mode_confirm
  have hcur : (b.ram.merge (maskPending ||| maskTrial) 0).current = b.ram.current :=
    congrArg Mode.current hm
  have hboots : (b.confirmOta true).history.boots = Function.update b.history.boots b.ram.current none := by
    rw [← hcur]
    rfl
  refine ⟨h.synced.update _ _, ?_⟩
  rw [hm]
  refine ⟨fun hp => (Bool.noConfusion hp), fun _ => ⟨?_, fun k hk => ?_⟩, fun p hc => ?_⟩
  · rw [hboots]
    exact Function.update_self ..
  · rw [hboots, Function.update_of_ne (not_ne_self _)] at hk
    cases hp : b.ram.pending with
    | true => cases hk.symm.trans (h.ok.pending hp).2.1
    | false => exact (h.ok.settled hp).2 k hk
  · cases hc
    exact congrArg (Mode.mk · false false) hcur.symm

theorem TrialInv.step (h : TrialInv b) (hok : Stored b l) (hov : OverSettled b l)
    (hn : next cfg b l = some b') : TrialInv b' := by
  obtain ⟨hstores, hr⟩ := hok
  cases move_of_next hn with
  | same hs => exact h.same hs
  | reset =>
    cases hstores
    exact h.reset
  | download hf hs => exact (h.fetched hf).same hs
  | downloadCut hf =>
    cases hstores
    exact (h.fetched hf).reset
  | startOta =>
    cases hstores
    exact h.activate hr hov
  | confirmOta =>
    cases hstores
    exact h.confirmOta

theorem TrialInv.factory (areas : Bool → Flash) : TrialInv (factory areas) := by
  have h0 : mode 0 = ⟨false, false, false⟩ := by decide
  refine ⟨rfl, ?_⟩
  change TrialOk (mode 0) _
  rw [h0]
  exact ⟨fun h => (Bool.noConfusion h), fun _ => ⟨rfl, fun _ h => by cases h⟩, fun _ h => by cases h⟩

theorem TrialInv.trialOnce (h : TrialInv b) : TrialOnce b := by
  obtain ⟨hm, hb, -, hs⟩ := reset_spec b true
  have hr : ((b.reset true).record.getD 0).mode = resetMode b.ram.mode := by
    rw [← hs rfl, hm, h.synced]
  rw [← h.synced] at hm hb
  have hp : ∀ p k, b.history.boots p = some k → k ≤ 1 ∧
      (k = 1 → b.history.booted = p → b.ram.mode = ⟨p, true, true⟩) := by
    intro p k hu
    obtain ⟨hpend, hsett, -⟩ := h.ok
    generalize b.ram.mode = m at hpend hsett
    obtain ⟨c, pending, trial⟩ := m
    rcases eq_or_ne p c with rfl | hne
    · cases pending with
      | false => cases hu.symm.trans (hsett rfl).1
      | true =>
        cases hu.symm.trans (hpend rfl).1
        cases trial <;> simp
    · obtain rfl := Bool.eq_not.mpr hne
      cases pending with
      | false =>
        obtain ⟨hk, hb⟩ := (hsett rfl).2 k hu
        exact ⟨hk, fun _ he => absurd (hb.symm.trans he).symm hne⟩
      | true => cases hu.symm.trans (hpend rfl).2.1
  refine ⟨fun p k hu => (hp p k hu).1, fun p hu hp' => ?_, fun p hc => ?_⟩
  · have hmode := (hp p 1 hu).2 rfl hp'
    have hrec : (b.record.getD 0).mode = ⟨p, true, true⟩ := h.synced.symm.trans hmode
    obtain ⟨hf, hf'⟩ := stateLoad_fail { b with ram := 0, downloadedSize := 0 }
      (congrArg Mode.pending hrec) (congrArg Mode.trial hrec)
    rw [hmode] at hm hb hr
    exact ⟨hb, hm, hf, hr, hf'⟩
  · rw [hb, h.ok.confirmed p hc]
    rfl

/-- Any image passes; one byte at a time. -/
def anyCfg : BootCfg := ⟨1, fun _ _ => true⟩

/-- Both partitions erased but for the first byte of image 0. -/
def oneByte : Bool → Flash := fun p => if p then .erased else Flash.erased.program 0 [7]

/-- No download erases or writes the partition that the last reset booted. -/
def SparesBooted (b : Boot) : Prop := ∀ op ∈ b.history.touched, op.1 ≠ op.2

/-- The device with the application running: `boot.ram` is its state word. -/
structure App where
  boot : Boot
  /-- the word was read from the medium since the application started -/
  refreshed : Bool
  /-- the last reset did not roll back, or stored that it did -/
  kept : Bool

inductive AppLabel where
  | call (l : Label)
  | refresh
  deriving DecidableEq

namespace App

/-- The application that a reset behind `b` starts. -/
def start (b b' : Boot) (stores : Bool) : App :=
  ⟨{ b' with ram := 0 }, false,
    stores || !((b.record.getD 0).pending && (b.record.getD 0).trial)⟩

/-- mirrors start.c:22-35, 202-205 (`mini_boot_state_refresh`) -/
def next (cfg : BootCfg) (a : App) : AppLabel → Option App
  | .call l => (Boot.next cfg a.boot l).map fun b => match l with
    | .reset stores | .downloadCut _ _ _ _ stores => start a.boot b stores
    | _ => { a with boot := b }
  | .refresh => some { a with boot := a.boot.stateReload, refreshed := true }

def system (cfg : BootCfg) : LTS App AppLabel :=
  LTS.ofFn (fun a => ∃ areas, a = ⟨factory areas, true, true⟩) (next cfg)

/-- A download is called by an application that has refreshed its word, behind a reset that left the
partition which it booted on the medium, and not behind an activation. -/
def Refreshed (a : App) : AppLabel → Prop
  | .call (.download ..) | .call (.downloadCut ..) =>
    a.refreshed = true ∧ a.kept = true ∧ a.boot.history.activated = false
  | _ => True

instance (a : App) (l : AppLabel) : Decidable (Refreshed a l) := by
  unfold Refreshed
  split <;> infer_instance

/-- The medium names the partition that runs, and a refreshed word does. -/
structure SparesInv (a : App) : Prop where
  spares : SparesBooted a.boot
  record : a.kept = true → a.boot.history.activated = false →
    (a.boot.record.getD 0).current = a.boot.history.booted
  word : a.refreshed = true → a.kept = true → a.boot.history.activated = false →
    a.boot.ram.current = a.boot.history.booted

variable {a a' : App}

section
variable (h : SparesInv a)
include h

theorem SparesInv.same (hs : Same a.boot b') : SparesInv { a with boot := b' } where
  spares := by unfold SparesBooted; rw [hs.history]; exact h.spares
  record := by
    rw [hs.history, show (b'.record.getD 0).current = _ from congrArg Mode.current hs.record]
    exact h.record
  word := by
    rw [hs.history, show b'.ram.current = _ from congrArg Mode.current hs.mode]
    exact h.word

theorem SparesInv.fetched (hr : a.refreshed = true ∧ a.kept = true ∧ a.boot.history.activated = false)
    (hf : Fetched a.boot.inactive a.boot b') : SparesInv { a with boot := b' } := by
  obtain ⟨hr, hk, ha⟩ := hr
  obtain ⟨ops, hops, hh⟩ := hf.history
  refine ⟨?_, fun _ _ => ?_, fun _ _ _ => ?_⟩
  · change SparesBooted b'
    unfold SparesBooted
    rw [hh]
    refine forall_mem_append.mpr ⟨h.spares, fun op hm => ?_⟩
    rw [hops op hm, inactive, h.word hr hk ha]
    exact not_ne_self _
  · change (b'.record.getD 0).current = b'.history.booted
    rw [hf.record, hh]
    exact h.record hk ha
  · change b'.ram.current = b'.history.booted
    rw [hf.ram, hh]
    exact h.word hr hk ha

/-- A reset that did not roll back, or stored that it did, leaves its partition on the medium. -/
theorem SparesInv.start (stores : Bool) : SparesInv (start a.boot (a.boot.reset stores) stores) := by
  obtain ⟨hm, hb, -, hs⟩ := reset_spec a.boot stores
  refine ⟨?_, fun hk _ => ?_, fun hr => Bool.noConfusion hr⟩
  · change ∀ op ∈ (a.boot.reset stores).history.touched, op.1 ≠ op.2
    rw [reset_history]
    exact h.spares
  · change ((a.boot.reset stores).record.getD 0).mode.current = (a.boot.reset stores).history.booted
    rw [hb]
    cases stores with
    | true => rw [← hs rfl, hm]
    | false =>
      -- nothing was stored, and a reset that does not roll back boots what the record says
      rw [show (a.boot.reset false).record = a.boot.record from stateLoad_record _]
      have hk : (a.boot.record.getD 0).pending = false ∨ (a.boot.record.getD 0).trial = false := by
        simpa [App.start] using hk
      unfold resetMode
      split
      · rfl
      · rename_i hp
        have ht : (a.boot.record.getD 0).mode.trial = false := hk.resolve_left hp
        rw [if_pos ht]

theorem SparesInv.confirmOta (stores : Bool) :
    SparesInv { a with boot := a.boot.confirmOta stores } := by
  have hcur : ∀ w : Word, (w.merge (maskPending ||| maskTrial) 0).current = w.current :=
    fun _ => congrArg Mode.current mode_confirm
  cases stores with
  | false => exact ⟨h.spares, h.record, fun hr hk ha => (hcur _).trans (h.word hr hk ha)⟩
  | true =>
    refine ⟨h.spares, fun hk ha => ?_, fun hr hk ha => (hcur _).trans (h.word hr hk ha)⟩
    exact (congrArg Mode.current mode_stored).trans ((hcur _).trans (h.record hk ha))

theorem SparesInv.step {l : AppLabel} (hok : Refreshed a l) (hn : next cfg a l = some a') :
    SparesInv a' := by
  cases l with
  | refresh =>
    cases hn
    obtain ⟨hm, hr, -, hh⟩ := a.boot.stateReload_mode
    refine ⟨?_, ?_, fun _ => ?_⟩
    · unfold SparesBooted
      rw [hh]
      exact h.spares
    · rw [hh, hr]
      exact h.record
    · rw [hh, show a.boot.stateReload.ram.current = _ from congrArg Mode.current hm]
      exact h.record
  | call l =>
    obtain ⟨b', hb, rfl⟩ := map_eq_some_iff.mp hn
    have hmove := move_of_next hb
    cases l with
    | reset stores =>
      cases hb
      exact h.start stores
    | downloadCut opens erases totalLen answers stores =>
      cases hb
      change SparesInv (App.start a.boot (Boot.downloadCut ..) stores)
      unfold Boot.downloadCut
      split
      · exact h.start stores
      · have hf := fetched_fetch cfg a.boot opens erases totalLen answers
        have hs := (h.fetched hok hf).start stores
        unfold App.start at hs ⊢
        dsimp only at hs
        rwa [hf.record] at hs
    | download =>
      cases hmove with
      | same hs => exact h.same hs
      | download hf hs => exact (h.fetched hok hf).same hs
    | startOta =>
      cases hmove with
      | same hs => exact h.same hs
      | startOta => exact ⟨h.spares, fun _ ha => Bool.noConfusion ha, fun _ _ ha => Bool.noConfusion ha⟩
    | confirmOta stores =>
      cases hmove with
      | same hs => exact h.same hs
      | confirmOta => exact h.confirmOta stores
    | setOpen | setRollback =>
      cases hmove with
      | same hs => exact h.same hs

end

end App

/-- A rollback at the next reset selects an image that is known to be good. -/
def LandsGood (b : Boot) : Prop :=
  (b.record.getD 0).pending = true → (b.record.getD 0).trial = true →
    ∀ stores, (b.areas (b.reset stores).history.booted).mem ∈ b.history.good

/-- Every store succeeds; nothing is downloaded or activated over a pending image, and a confirm
comes from the partition that the state word names. -/
def Settled (b : Boot) (l : Label) : Prop :=
  l.stores = true ∧ match l with
    | .download .. | .downloadCut .. | .startOta .. => b.ram.pending = false
    | .confirmOta _ => b.ram.current = b.history.booted
    | .setOpen _ | .setRollback _ | .reset _ => True

instance (b : Boot) (l : Label) : Decidable (Settled b l) := by
  unfold Settled
  split <;> infer_instance

structure GoodInv (b : Boot) : Prop where
  synced : Synced b
  good : (b.areas (b.ram.pending ^^ b.ram.current)).mem ∈ b.history.good

/-- The partition that is known to be good, by the bits of the state word. -/
theorem good_of_mode {w : Word} {m : Mode} (h : w.mode = m) :
    (w.pending ^^ w.current) = (m.pending ^^ m.current) := by
  rw [← h]
  rfl

theorem GoodInv.same (h : GoodInv b) (hs : Same b b') : GoodInv b' := by
  refine ⟨hs.synced h.synced, ?_⟩
  rw [hs.areas, hs.history, good_of_mode hs.mode]
  exact h.good

theorem GoodInv.fetched (h : GoodInv b) (hp : b.ram.pending = false)
    (hf : Fetched b.inactive b b') : GoodInv b' := by
  obtain ⟨ops, -, hh⟩ := hf.history
  have hg := h.good
  rw [hp, false_xor] at hg
  refine ⟨hf.synced h.synced, ?_⟩
  rw [hf.ram, hh, hp, false_xor, hf.areas _ (not_ne_self _).symm]
  exact hg

/-- Both a trial boot and a rollback keep the partition that is known to be good. -/
theorem resetMode_good (m : Mode) :
    ((resetMode m).pending ^^ (resetMode m).current) = (m.pending ^^ m.current) := by
  obtain ⟨c, p, t⟩ := m
  cases c <;> cases p <;> cases t <;> rfl

section
variable (h : GoodInv b)
include h

theorem GoodInv.reset : GoodInv (b.reset true) := by
  obtain ⟨hm, -, ha, hs⟩ := reset_spec b true
  rw [← h.synced] at hm
  refine ⟨hs rfl, ?_⟩
  rw [good_of_mode hm, resetMode_good, ha, reset_history]
  exact h.good

theorem GoodInv.activate (hr : b.ram.isRollback = true) (hp : b.ram.pending = false) :
    GoodInv (b.activate true) := by
  have hm : (b.ram.merge maskAll b.activation).mode = _ := mode_all
  rw [activation_mode, hr] at hm
  refine ⟨h.synced.update _ _, ?_⟩
  change (b.areas ((b.ram.merge maskAll b.activation).pending ^^
    (b.ram.merge maskAll b.activation).current)).mem ∈ b.history.good
  rw [good_of_mode hm]
  simpa [inactive, hp] using h.good

theorem GoodInv.confirmOta (hb : b.ram.current = b.history.booted) :
    GoodInv (b.confirmOta true) := by
  refine ⟨h.synced.update _ _, ?_⟩
  change (b.areas ((b.ram.merge (maskPending ||| maskTrial) 0).pending ^^
    (b.ram.merge (maskPending ||| maskTrial) 0).current)).mem ∈
      (b.areas b.history.booted).mem :: b.history.good
  rw [good_of_mode mode_confirm]
  simp [hb]

theorem GoodInv.step (hr : RollbackEnabled b l) (hok : Settled b l)
    (hn : next cfg b l = some b') : GoodInv b' := by
  obtain ⟨hstores, hok⟩ := hok
  cases move_of_next hn with
  | same hs => exact h.same hs
  | reset =>
    cases hstores
    exact h.reset
  | download hf hs => exact (h.fetched hok hf).same hs
  | downloadCut hf =>
    cases hstores
    exact (h.fetched hok hf).reset
  | startOta =>
    cases hstores
    exact h.activate hr hok
  | confirmOta =>
    cases hstores
    exact h.confirmOta hok

theorem GoodInv.landsGood : LandsGood b := by
  intro hp ht stores
  obtain ⟨-, hb, -⟩ := reset_spec b stores
  have hg := h.good
  have hc : b.ram.current = (b.record.getD 0).current := congrArg Mode.current h.synced
  have hp' : b.ram.pending = true := (congrArg Mode.pending h.synced).trans hp
  have hmode : (b.record.getD 0).mode = ⟨b.ram.current, true, true⟩ := by
    rw [hc]
    unfold mode
    rw [hp, ht]
  rw [hmode] at hb
  rw [hp', true_xor] at hg
  rw [hb]
  exact hg

end

end MiniTree.Ota.Boot
