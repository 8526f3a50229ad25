import MiniTree.Ota.BootRuns

/-!
# What `mini_boot_start_ota` activates

The calls that follow one reset, for both builds of `start.c`: with `OTA_DUAL_PARTITION` a download
goes to the partition that is not current, without it always to image 0. Both calls work out their
partition again from the state word, and the length of the image is the one of the last download
that returned OK.

The last successful download (its partition and its bytes) and each activation are history, as is
whether the flash still holds that download where `mini_boot_start_ota` will look for it.

**Results.** `activates_last_download`: when each `mini_boot_start_ota` is called while the last
successful download is intact, every activation makes that download's partition current and has
verified exactly its bytes. `second_start_activates_old` is a run that activates something else.
-/

namespace MiniTree.Ota

open MiniTree.Core Option List Function

/-- What the two calls return: a code of their own, or the error of the flash, of the verification
or of the state medium. -/
inductive Rc where
  | ok
  | otaOpen
  | arg
  | transmit
  | flash
  | verify
  | state
  deriving DecidableEq, Repr

namespace Boot

open Word

variable (cfg : BootCfg) (double : Bool)

/-- mirrors bootutil/src/start.c:219-228 (`flash_inactive_area_id`) -/
def targetArea (b : Boot) : Bool := if double then b.inactive else false

/-- mirrors bootutil/src/start.c:263-302 -/
def fetchInto (area : Bool) (b : Boot) (opens erases : Bool) (totalLen : Nat)
    (answers : List Answer) : Boot × Option Word :=
  if opens = false then (b, some failWrite)
  else
    let erased := b.touch area ((b.areas area).erase 0 totalLen)
    if erases = false then (erased, some failWrite)
    else downloadLoop cfg area totalLen answers 0 erased

/-- mirrors bootutil/src/start.c:247-306 (`mini_boot_source_download_stream`) -/
def sourceDownloadStream (b : Boot) (opens erases : Bool) (totalLen : Nat) (answers : List Answer)
    (stores : Bool) : Boot × Rc :=
  if b.ram.isOpen = false then (b, .otaOpen)
  else if totalLen = 0 then (b, .arg)
  else match fetchInto cfg (targetArea double b) b opens erases totalLen answers with
    | (b, some code) => (b.failSet code stores, if code = failRead then .transmit else .flash)
    | (b, none) => ({ b with downloadedSize := totalLen }, .ok)

/-- The value that is stored for the partition that was verified. -/
def activationOf (b : Boot) : Word := (if targetArea double b then maskCurrent else 0) |||
    (if double && b.ram.isRollback then maskPending else 0)

/-- mirrors bootutil/src/start.c:308-365 -/
def miniBootStartOta (b : Boot) (opens stores : Bool) : Boot × Rc :=
  if b.ram.isOpen = false then (b, .otaOpen)
  else if b.downloadedSize = 0 then (b, .arg)
  else if opens = false then (b.failSet failWrite stores, .flash)
  else if cfg.verify (b.areas (targetArea double b)).mem b.downloadedSize = false then
    (b.failSet failVerify stores, .verify)
  else (b.stateUpdate maskAll (activationOf double b) stores,
    if double && !stores then .state else .ok)

end Boot

/-- One activation: what became current, the bytes that were verified, and the last successful
download at that time. -/
structure Activation where
  area : Bool
  verified : Bytes
  last : Option (Bool × Bytes)
  deriving DecidableEq

structure Session where
  boot : Boot
  last : Option (Bool × Bytes)
  /-- no other download has worked on the flash and the target has not moved since `last` -/
  intact : Bool
  activations : List Activation

namespace Session

open Boot

inductive Label where
  | setOpen (value : Bool)
  | setRollback (value : Bool)
  | download (opens erases : Bool) (totalLen : Nat) (answers : List Answer) (stores : Bool)
  | startOta (opens stores : Bool)

def served : List Answer → Bytes
  | [] => []
  | .chunk data :: rest => data ++ served rest
  | .fail :: rest | .torn _ :: rest => served rest

variable (cfg : BootCfg) (double : Bool)

def download (s : Session) (opens erases : Bool) (totalLen : Nat) (answers : List Answer)
    (stores : Bool) : Session :=
  let r := sourceDownloadStream cfg double s.boot opens erases totalLen answers stores
  match r.2 with
  | .ok => { s with
      boot := r.1
      last := some (targetArea double s.boot, (served answers).take totalLen)
      intact := true }
  | .otaOpen | .arg => { s with boot := r.1 }
  | .transmit | .flash | .verify | .state => { s with boot := r.1, intact := s.intact && !opens }

def startOta (s : Session) (opens stores : Bool) : Session :=
  let r := miniBootStartOta cfg double s.boot opens stores
  match r.2 with
  | .ok => { s with
      boot := r.1
      intact := s.intact && !double
      activations :=
        ⟨r.1.ram.current, (s.boot.areas (targetArea double s.boot)).read 0 s.boot.downloadedSize,
          s.last⟩ :: s.activations }
  | .state => { s with boot := r.1, intact := false }
  | .otaOpen | .arg | .transmit | .flash | .verify => { s with boot := r.1 }

def next (s : Session) : Label → Option Session
  | .setOpen value => some { s with boot := { s.boot with ram := s.boot.ram.bitPut 0 value } }
  | .setRollback value => some { s with boot := { s.boot with ram := s.boot.ram.bitPut 2 value } }
  | .download opens erases totalLen answers stores =>
    some (s.download cfg double opens erases totalLen answers stores)
  | .startOta opens stores => some (s.startOta cfg double opens stores)

/-- After a reset, with anything in the flash and in the state word. -/
def Fresh (s : Session) : Prop :=
  s.boot.downloadedSize = 0 ∧ s.last = none ∧ s.intact = false ∧ s.activations = []

def system : LTS Session Label := LTS.ofFn Fresh (next cfg double)

/-- Every activation was of the last successful download. -/
def ActivatesLast (s : Session) : Prop := ∀ a ∈ s.activations, a.last = some (a.area, a.verified)

/-- `mini_boot_start_ota` is called while the last successful download is intact. -/
def Orderly (s : Session) : Label → Prop
  | .startOta _ _ => s.last ≠ none → s.intact = true
  | .setOpen _ | .setRollback _ | .download _ _ _ _ _ => True

instance (s : Session) (l : Label) : Decidable (Orderly s l) := by
  unfold Orderly
  split <;> infer_instance

end Session

/-! ## What a successful download leaves in the flash -/

namespace Boot

open Session

variable {cfg : BootCfg} {double area : Bool} {totalLen : Nat}

/-- The induction is on the answers: what was received so far is in front, the rest is blank. -/
theorem downloadLoop_read (answers : List Answer) (received : Nat) (b b' : Boot)
    (h : downloadLoop cfg area totalLen answers received b = (b', none)) (hle : received ≤ totalLen)
    (hblank : ∀ a, received ≤ a → a < totalLen → (b.areas area).Blank a) :
    (b'.areas area).read 0 totalLen =
      (b.areas area).read 0 received ++ (served answers).take (totalLen - received) := by
  induction answers generalizing received b with
  | nil =>
    simp only [downloadLoop, Prod.mk.injEq] at h
    obtain ⟨hb, hn⟩ := h
    subst hb
    split at hn
    · have he : received = totalLen := by omega
      simp [he]
    · exact absurd hn (some_ne_none _)
  | cons answer rest ih =>
    unfold downloadLoop at h
    split at h
    · obtain ⟨hb, -⟩ := Prod.mk.inj h
      have he : received = totalLen := by omega
      simp [← hb, he]
    cases answer with
    | fail => exact absurd (Prod.mk.inj h).2 (some_ne_none _)
    | torn data => exact absurd (Prod.mk.inj h).2 (some_ne_none _)
    | chunk data =>
      dsimp only at h
      split at h
      · exact absurd (Prod.mk.inj h).2 (some_ne_none _)
      rename_i hok
      have hlen : data.length ≤ totalLen - received := by
        have h' := (not_or.mp hok).2
        omega
      have harea : (b.touch area ((b.areas area).program received data)).areas area =
          (b.areas area).program received data := update_self ..
      have hrest := ih _ _ h (by omega) (by
        intro a h1 h2
        rw [harea]
        apply (hblank a (by omega) h2).program
        intro hw
        have := hw.2
        omega)
      have hfront : ((b.areas area).program received data).read 0 received =
          (b.areas area).read 0 received := by
        apply Flash.read_congr
        intro a hw
        apply Flash.mem_program_of_not
        intro hw'
        have h1 := hw.2
        have h2 := hw'.1
        omega
      have hdata : ((b.areas area).program received data).read received data.length = data := by
        apply Flash.Blank.read_program
        intro a hw
        exact hblank a hw.1 (by have := hw.2; omega)
      rw [hrest, harea, Flash.read_add, zero_add, hfront, hdata, served,
        take_append, take_of_length_le hlen, append_assoc, Nat.sub_sub]

theorem downloadLoop_size (answers : List Answer) (received : Nat) (b : Boot) :
    (downloadLoop cfg area totalLen answers received b).1.downloadedSize = b.downloadedSize := by
  induction answers generalizing received b with
  | nil => rfl
  | cons answer rest ih =>
    unfold downloadLoop
    split
    · rfl
    cases answer with
    | fail => rfl
    | torn data => rfl
    | chunk data =>
      dsimp only
      split
      · rfl
      · exact ih ..

theorem fetchInto_spec (b : Boot) (opens erases : Bool) (answers : List Answer) :
    Fetched area b (fetchInto cfg area b opens erases totalLen answers).1 ∧
      (fetchInto cfg area b opens erases totalLen answers).1.downloadedSize = b.downloadedSize := by
  unfold fetchInto
  split
  · exact ⟨.refl b, rfl⟩
  dsimp only
  split
  · exact ⟨fetched_touch .., rfl⟩
  · exact ⟨(fetched_touch ..).trans (fetched_downloadLoop ..), downloadLoop_size ..⟩

theorem fetchInto_read {b b' : Boot} {opens erases : Bool} {answers : List Answer}
    (h : fetchInto cfg area b opens erases totalLen answers = (b', none)) :
    (b'.areas area).read 0 totalLen = (served answers).take totalLen := by
  unfold fetchInto at h
  split at h
  · exact absurd (Prod.mk.inj h).2 (some_ne_none _)
  dsimp only at h
  split at h
  · exact absurd (Prod.mk.inj h).2 (some_ne_none _)
  have hr := downloadLoop_read answers 0 _ b' h (Nat.zero_le _) (by
    intro a h1 h2
    have harea : (b.touch area ((b.areas area).erase 0 totalLen)).areas area =
        (b.areas area).erase 0 totalLen := update_self ..
    rw [harea]
    exact Flash.blank_erase ⟨h1, by omega⟩)
  rw [hr]
  simp [Flash.read, copyFrom]

end Boot

/-! ## Activations -/

namespace Session

open Boot Word

variable {cfg : BootCfg} {double : Bool} {s s' : Session} {b b' : Boot}

/-- The flash holds `bytes` where `mini_boot_start_ota` will look for them. -/
structure Holds (double : Bool) (b : Boot) (area : Bool) (bytes : Bytes) : Prop where
  target : targetArea double b = area
  size : b.downloadedSize = bytes.length
  read : (b.areas area).read 0 bytes.length = bytes

structure Inv (double : Bool) (s : Session) : Prop where
  size : s.last = none → s.boot.downloadedSize = 0
  holds : s.intact = true → ∃ area bytes, s.last = some (area, bytes) ∧
    Holds double s.boot area bytes
  activations : ActivatesLast s

theorem targetArea_congr (h : b'.ram.mode = b.ram.mode) :
    targetArea double b' = targetArea double b := by
  have hc : b'.ram.current = b.ram.current := congrArg Mode.current h
  unfold targetArea inactive
  rw [hc]

theorem Holds.same {area : Bool} {bytes : Bytes} (h : Holds double b area bytes)
    (hm : b'.ram.mode = b.ram.mode) (hs : b'.downloadedSize = b.downloadedSize)
    (ha : b'.areas = b.areas) : Holds double b' area bytes where
  target := (targetArea_congr hm).trans h.target
  size := hs.trans h.size
  read := by rw [ha]; exact h.read

/-- A step that leaves the partition, the size and the flash alone. -/
theorem Inv.same (h : Inv double s) {b : Boot} (hm : b.ram.mode = s.boot.ram.mode)
    (hs : b.downloadedSize = s.boot.downloadedSize) (ha : b.areas = s.boot.areas) :
    Inv double { s with boot := b } where
  size hl := hs.trans (h.size hl)
  holds hi := by
    obtain ⟨area, bytes, hl, hh⟩ := h.holds hi
    exact ⟨area, bytes, hl, hh.same hm hs ha⟩
  activations := h.activations

theorem Inv.failSet (h : Inv double s) (code : Word) (stores : Bool) :
    Inv double { s with boot := s.boot.failSet code stores } :=
  h.same mode_fail rfl rfl

theorem Inv.download (h : Inv double s) (opens erases : Bool) (totalLen : Nat)
    (answers : List Answer) (stores : Bool) :
    Inv double (s.download cfg double opens erases totalLen answers stores) := by
  unfold Session.download sourceDownloadStream
  by_cases ho : s.boot.ram.isOpen = false
  · simp only [if_pos ho]
    exact h
  by_cases hl : totalLen = 0
  · simp only [if_neg ho, if_pos hl]
    exact h
  simp only [if_neg ho, if_neg hl]
  obtain ⟨hf, hsize⟩ := @fetchInto_spec cfg (targetArea double s.boot) totalLen s.boot opens erases
    answers
  rcases he : fetchInto cfg (targetArea double s.boot) s.boot opens erases totalLen answers with
    ⟨b, _ | code⟩
  · rw [he] at hf
    have hread := fetchInto_read he
    have hlen : ((served answers).take totalLen).length = totalLen := by
      rw [← hread, Flash.read_length]
    refine ⟨nofun, fun _ => ⟨_, _, rfl, ?_, hlen.symm, ?_⟩, h.activations⟩
    · exact targetArea_congr (congrArg Word.mode hf.ram)
    · rw [hlen]
      exact hread
  rw [he] at hf hsize
  have hnone : s.last = none → b.downloadedSize = 0 := fun hn => hsize.trans (h.size hn)
  have hgoal : Inv double { s with
      boot := b.failSet code stores, intact := s.intact && !opens } := by
    refine ⟨hnone, fun hi => ?_, h.activations⟩
    -- only a download that could not open its area leaves the last one intact
    obtain ⟨hi, hop⟩ := Bool.and_eq_true_iff.mp hi
    have hop : opens = false := by simpa using hop
    obtain ⟨area, bytes, hlast, hh⟩ := h.holds hi
    have hb : s.boot = b := by
      unfold fetchInto at he
      rw [if_pos hop] at he
      exact (Prod.mk.inj he).1
    refine ⟨area, bytes, hlast, hh.same ?_ ?_ ?_⟩ <;> rw [hb]
    · exact mode_fail
    · rfl
    · rfl
  by_cases hc : code = failRead
  · simp only [if_pos hc]
    exact hgoal
  · simp only [if_neg hc]
    exact hgoal

theorem current_activationOf (b : Boot) : (activationOf double b).current = targetArea double b := by
  unfold activationOf
  cases targetArea double b <;> cases double <;> cases b.ram.isRollback <;> decide

/-- After an update with the value of an activation the target is current. -/
theorem current_activated (b : Boot) (stores : Bool) :
    (b.stateUpdate maskAll (activationOf double b) stores).ram.current = targetArea double b := by
  have hm : (b.ram.merge maskAll (activationOf double b)).mode = _ := mode_all
  exact (congrArg Mode.current hm).trans (current_activationOf b)

theorem Inv.startOta (h : Inv double s) (hok : s.last ≠ none → s.intact = true)
    (opens stores : Bool) : Inv double (s.startOta cfg double opens stores) := by
  unfold Session.startOta miniBootStartOta
  by_cases ho : s.boot.ram.isOpen = false
  · simp only [if_pos ho]
    exact h
  by_cases hl : s.boot.downloadedSize = 0
  · simp only [if_neg ho, if_pos hl]
    exact h
  by_cases hp : opens = false
  · simp only [if_neg ho, if_neg hl, if_pos hp]
    exact h.failSet ..
  by_cases hv : cfg.verify (s.boot.areas (targetArea double s.boot)).mem s.boot.downloadedSize = false
  · simp only [if_neg ho, if_neg hl, if_neg hp, if_pos hv]
    exact h.failSet ..
  simp only [if_neg ho, if_neg hl, if_neg hp, if_neg hv]
  have hlast : s.last ≠ none := fun hn => hl (h.size hn)
  obtain ⟨area, bytes, he, hh⟩ := h.holds (hok hlast)
  by_cases hst : (double && !stores) = true
  · simp only [if_pos hst]
    exact ⟨fun hn => absurd hn hlast, nofun, h.activations⟩
  simp only [if_neg hst]
  refine ⟨fun hn => absurd hn hlast, fun hi => ?_, ?_⟩
  · -- only the build with one partition keeps its target
    obtain ⟨-, hd⟩ := Bool.and_eq_true_iff.mp hi
    have hd : double = false := by simpa using hd
    subst hd
    exact ⟨area, bytes, he, hh.target, hh.size, hh.read⟩
  · intro a ha
    rcases mem_cons.mp ha with ha | ha
    · subst ha
      dsimp only
      rw [he, current_activated, hh.target, hh.size, hh.read]
    · exact h.activations a ha

theorem inv_reachable (hr : ((system cfg double).restrict Orderly).Reachable s) : Inv double s := by
  induction hr with
  | init h0 =>
    obtain ⟨hsize, -, hi, ha⟩ := h0
    refine ⟨fun _ => hsize, fun h => ?_, ?_⟩
    · exact Bool.noConfusion (h.symm.trans hi)
    · intro a hm
      rw [ha] at hm
      exact (not_mem_nil hm).elim
  | @step s s' l _ hs ih =>
    obtain ⟨hok, hs⟩ := hs
    cases l with
    | setOpen value =>
      cases hs
      exact ih.same (mode_bitPut (by decide)) rfl rfl
    | setRollback value =>
      cases hs
      exact ih.same (mode_bitPut (by decide)) rfl rfl
    | download opens erases totalLen answers stores =>
      cases hs
      exact ih.download ..
    | startOta opens stores =>
      cases hs
      exact ih.startOta hok ..

theorem activates_last_download (cfg : BootCfg) (double : Bool) {s : Session}
    (hr : ((system cfg double).restrict Orderly).Reachable s) : ActivatesLast s :=
  (inv_reachable hr).activations

/-- An image repeats its first byte at its end. -/
def echoCfg : BootCfg := ⟨4, fun mem n => mem 0 == mem (n - 1)⟩

def twoBytes : Session where
  boot := .factory fun p => if p then .erased else Flash.erased.program 0 [7, 7]
  last := none
  intact := false
  activations := []

/-- Two downloads, each activated. -/
theorem activates_last_download_twice :
    ∃ s, ((system echoCfg true).restrict Orderly).Reachable s ∧ ActivatesLast s ∧
      s.activations = [⟨false, [3, 2, 3], some (false, [3, 2, 3])⟩,
        ⟨true, [1, 1], some (true, [1, 1])⟩] := by
  obtain ⟨s, hr, hp⟩ := LTS.Reachable.of_execOk Fresh (next echoCfg true) Orderly
    twoBytes
    [.setOpen true, .startOta true true, .download true true 2 [.chunk [1], .chunk [1]] true,
      .startOta true true, .download true true 3 [.chunk [3, 2, 3]] true, .startOta true true]
    (fun s => s.activations = [⟨false, [3, 2, 3], some (false, [3, 2, 3])⟩,
      ⟨true, [1, 1], some (true, [1, 1])⟩])
    ⟨rfl, rfl, rfl, rfl⟩ (by decide +kernel)
  exact ⟨s, hr, activates_last_download echoCfg true hr, hp⟩

/-- A second call verifies and activates the partition that was running. -/
theorem second_start_activates_old : ∃ s, (system echoCfg true).Reachable s ∧ ¬ ActivatesLast s := by
  obtain ⟨s, hr, hp⟩ := LTS.Reachable.of_exec Fresh (next echoCfg true) twoBytes
    [.setOpen true, .download true true 2 [.chunk [1, 1]] true, .startOta true true,
      .startOta true true]
    (fun s => ⟨false, [7, 7], some (true, [1, 1])⟩ ∈ s.activations)
    ⟨rfl, rfl, rfl, rfl⟩ (by decide +kernel)
  refine ⟨s, hr, fun h => ?_⟩
  have he := h _ hp
  exact absurd he (by decide)

end Session

end MiniTree.Ota
