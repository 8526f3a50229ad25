import MiniTree.Board.Device
import MiniTree.Core.LTS

/-!
# Device lifecycle (`board/src/dev_lifecycle.c`)

Any number of threads run the functions of the lifecycle, one atomic access at a time. `opens` and
`io_active` are one family of counters here, since `dev_lc_open_begin` and `dev_lc_io_begin` are the
same loop on two of them. A counter at -1 is locked by `dev_lc_remove_drain`.

How many begins are not yet ended (`held`), whether the device is down (a drain has returned OK, or
it was never initialised, and no `dev_lc_init` is through since), and whether a removal is in
progress are history. The counters are `int`, and `Contract` has fewer than 2^31 begins at a time.

**Results.** `teardown_safe`: when no begin stands between its checks and its compare-and-swap on
a counter it has read as 0 at the moment `dev_lc_remove_finish` is called, nothing is held while the
device is down, and outside of removals the counters are what is held. `late_begin_succeeds` is the
run in which a begin sleeps through a whole removal. `alone_openBegin`, `alone_closeBegin` and
`alone_stores`: in these calls a thread that is not interrupted does what `Device` says.
`drain_retries`: when drains also run out of time only behind an open, a drain that is called once
nothing is held returns OK. One that runs out of time behind an I/O leaves the opens at -1
(`drain_waits_for_itself`).
-/

namespace MiniTree.Board.Lifecycle

open MiniTree.Core Function Option List

inductive Kind where
  | opens
  | ioActive
  deriving DecidableEq, Repr

inductive Rc where
  | ok
  /-- `1`: the first open, or the last close -/
  | edge
  | nodev
  | io
  | busy
  | timeout
  deriving DecidableEq, Repr

/-- Where a thread stands: the access it does next. -/
inductive Pc where
  | idle
  /-- load the counter -/
  | beginStart (k : Kind)
  /-- load the state -/
  | beginLoaded (k : Kind) (old : Int)
  /-- compare and swap -/
  | beginChecked (k : Kind) (old : Int)
  | closeStart
  | closeLoaded (old : Int)
  | drainStart
  | drainOpens
  | drainIo
  | resetOpens
  | resetIo
  | resetState
  | initOpens
  | initIo
  | initState
  deriving DecidableEq, Repr

structure Dev (n : Nat) where
  count : Kind → Int
  state : LcState
  pc : Fin n → Pc
  rc : Fin n → Rc
  held : Kind → Nat
  down : Bool
  removing : Bool

/-- The calls; `end` of an open is `dev_lc_open_abort`. -/
inductive Call where
  | beginOn (k : Kind)
  | closeBegin
  | endOn (k : Kind)
  | removeStart
  | removeDrain
  | removeFinish
  | init
  deriving DecidableEq

inductive Label (n : Nat) where
  | call (t : Fin n) (c : Call)
  | run (t : Fin n)
  /-- `dev_lc_remove_drain` runs out of time after a compare-and-swap that failed -/
  | giveUp (t : Fin n)
  deriving DecidableEq

namespace Dev

variable {n : Nat}

def uninit : Dev n := ⟨fun _ => 0, .uninitialized, fun _ => .idle, fun _ => .ok, fun _ => 0, true, false⟩

section
variable (d : Dev n) (t : Fin n) (k : Kind)

def setPc (p : Pc) : Dev n := { d with pc := update d.pc t p }

def ret (rc : Rc) : Dev n :=
  { d.setPc t .idle with rc := update d.rc t rc }

def setCount (c : Int) : Dev n := { d with count := update d.count k c }

/-- One more begin, or one less, is held. -/
def take : Dev n := { d with held := update d.held k (d.held k + 1) }

def give : Dev n := { d with held := update d.held k (d.held k - 1) }

/-- mirrors dev_lifecycle.c:84-99, 155-170 (`dev_lc_open_begin`, `dev_lc_io_begin`);
only the first tells the first open from the others -/
def beginCas (old : Int) : Dev n :=
  if d.count k = old then
    ((d.setCount k (old + 1)).take k).ret t (if k = .opens ∧ old + 1 = 1 then .edge else .ok)
  else d.setPc t (.beginStart k)

/-- mirrors dev_lifecycle.c:126-139 (`dev_lc_close_begin`) -/
def closeCas (old : Int) : Dev n :=
  if d.count .opens = old then
    ((d.setCount .opens (old - 1)).give .opens).ret t (if old - 1 = 0 then .edge else .ok)
  else d.setPc t .closeStart

/-- The next access of a thread.
mirrors dev_lifecycle.c:24-44, 84-99, 126-139, 155-170, 200-235 -/
def run : Option (Dev n) :=
  match d.pc t with
  | .idle => none
  | .beginStart k =>
    some (if d.count k < 0 then d.ret t .nodev else d.setPc t (.beginLoaded k (d.count k)))
  | .beginLoaded k old =>
    some (if d.state = .live then d.setPc t (.beginChecked k old) else d.ret t .nodev)
  | .beginChecked k old => some (d.beginCas t k old)
  | .closeStart =>
    some (if d.count .opens ≤ 0 then d.ret t .io else d.setPc t (.closeLoaded (d.count .opens)))
  | .closeLoaded old => some (d.closeCas t old)
  | .drainStart => some (if d.state = .removing then d.setPc t .drainOpens else d.ret t .busy)
  | .drainOpens =>
    some (if d.count .opens = 0 then (d.setCount .opens (-1)).setPc t .drainIo else d)
  | .drainIo =>
    some (if d.count .ioActive = 0 then
      { d.setCount .ioActive (-1) with down := true }.ret t .ok else d)
  | .resetOpens => some ((d.setCount .opens 0).setPc t .resetIo)
  | .resetIo => some ((d.setCount .ioActive 0).setPc t .resetState)
  | .resetState => some ({ d with state := .uninitialized, removing := false }.ret t .ok)
  | .initOpens => some ((d.setCount .opens 0).setPc t .initIo)
  | .initIo => some ((d.setCount .ioActive 0).setPc t .initState)
  | .initState => some ({ d with state := .live, down := false }.ret t .ok)

/-- A call: the functions of one access are done at once, the others are entered.
mirrors dev_lifecycle.c:114-119, 176-181, 187-192 (`dev_lc_open_abort`, `dev_lc_io_end`,
`dev_lc_remove_start`) -/
def call : Call → Dev n
  | .beginOn k => d.setPc t (.beginStart k)
  | .closeBegin => d.setPc t .closeStart
  | .endOn k => (d.setCount k (d.count k - 1)).give k
  | .removeStart => { d with state := .removing, removing := true }
  | .removeDrain => d.setPc t .drainStart
  | .removeFinish => d.setPc t .resetOpens
  | .init => d.setPc t .initOpens

end

def next (d : Dev n) : Label n → Option (Dev n)
  | .call t c => if d.pc t = .idle then some (d.call t c) else none
  | .run t => d.run t
  | .giveUp t => if d.pc t = .drainOpens ∨ d.pc t = .drainIo then some (d.ret t .timeout) else none

def system (n : Nat) : LTS (Dev n) (Label n) := LTS.ofFn (· = uninit) next

end Dev

/-- A call of the remove path or of `dev_lc_init` is under way. -/
@[simp] def Pc.admin : Pc → Bool
  | .drainStart | .drainOpens | .drainIo | .resetOpens | .resetIo | .resetState | .initOpens
  | .initIo | .initState => true
  | .idle | .beginStart _ | .beginLoaded _ _ | .beginChecked _ _ | .closeStart | .closeLoaded _ => false

/-- A begin that has passed its checks on a counter it read as 0. -/
@[simp] def Pc.late : Pc → Bool
  | .beginChecked _ old => old == 0
  | _ => false

/-- A begin does not count past `INT_MAX`. -/
def Pc.fits : Pc → Bool
  | .beginChecked _ old => old + 1 < 2 ^ 31
  | _ => true

variable {n : Nat}

/-- How the lifecycle is used: a begin is ended once, an initialised device is removed by one thread
at a time, which finishes after a drain that returned OK, a removed device is initialised by one
thread at a time, and fewer than 2^31 begins of a kind are held. -/
def Contract (d : Dev n) : Label n → Prop
  | .call _ (.endOn k) => 0 < d.held k
  | .call _ .removeStart => d.state = .live ∧ ∀ t, (d.pc t).admin = false
  | .call _ .removeDrain => d.state = .removing ∧ d.down = false ∧ ∀ t, (d.pc t).admin = false
  | .call _ .removeFinish => d.state = .removing ∧ d.down = true ∧ ∀ t, (d.pc t).admin = false
  | .call _ .init => d.state = .uninitialized ∧ ∀ t, (d.pc t).admin = false
  | .run t => (d.pc t).fits = true
  | .call _ (.beginOn _) | .call _ .closeBegin | .giveUp _ => True

/-- No begin is late when `dev_lc_remove_finish` is called. -/
def NoneLate (d : Dev n) (l : Label n) : Prop :=
  Contract d l ∧ match l with
    | .call _ .removeFinish => ∀ t, (d.pc t).late = false
    | _ => True

instance (d : Dev n) (l : Label n) : Decidable (Contract d l) := by
  unfold Contract
  split <;> infer_instance

instance (d : Dev n) (l : Label n) : Decidable (NoneLate d l) := by
  unfold NoneLate
  split <;> infer_instance

/-- What the lifecycle promises. -/
structure TeardownSafe (d : Dev n) : Prop where
  quiet : d.down = true → ∀ k, d.held k = 0
  counts : d.removing = false → ∀ k, d.count k = d.held k

/-! ## What every run keeps -/

def PcOk (d : Dev n) : Pc → Prop
  | .idle | .beginStart _ | .closeStart => True
  | .beginLoaded _ old | .beginChecked _ old => 0 ≤ old
  | .closeLoaded old => 0 < old
  | .drainStart | .drainOpens => d.state = .removing ∧ d.down = false
  | .drainIo => d.state = .removing ∧ d.down = false ∧ d.count .opens = -1
  | .resetOpens => d.state = .removing ∧ d.down = true ∧ ∀ t, (d.pc t).late = false
  | .resetIo =>
    d.state = .removing ∧ d.down = true ∧ (∀ t, (d.pc t).late = false) ∧ d.count .opens = 0
  | .resetState =>
    d.state = .removing ∧ d.down = true ∧ (∀ t, (d.pc t).late = false) ∧ ∀ k, d.count k = 0
  | .initOpens | .initIo | .initState => d.state = .uninitialized

structure Inv (d : Dev n) : Prop where
  count : ∀ k, (d.count k = -1 ∧ d.held k = 0 ∧ d.removing = true) ∨ d.count k = d.held k
  removing : d.removing = true ↔ d.state = .removing
  quiet : d.down = true → ∀ k, d.held k = 0
  off : d.down = true → d.state ≠ .live
  /-- while a begin is late, a device that is down is locked -/
  locked : d.down = true → ∀ t, (d.pc t).late = true → ∀ k, d.count k = -1
  uninit : d.state = .uninitialized → d.down = true
  pc : ∀ t, PcOk d (d.pc t)
  admin : ∀ t t', (d.pc t).admin = true → (d.pc t').admin = true → t = t'

namespace Inv

variable {d : Dev n} {t : Fin n} {d' : Dev n}

theorem uninit_dev : Inv (Dev.uninit : Dev n) where
  count _ := .inr rfl
  removing := by simp [Dev.uninit]
  quiet _ _ := rfl
  off _ := by simp [Dev.uninit]
  locked _ t hl := by simp [Dev.uninit] at hl
  uninit _ := rfl
  pc _ := trivial
  admin t t' ht := by simp [Dev.uninit] at ht

@[grind =] theorem setPc_pc (d : Dev n) (t t' : Fin n) (p : Pc) :
    (d.setPc t p).pc t' = if t' = t then p else d.pc t' := update_apply ..

theorem setCount_count (d : Dev n) (k k' : Kind) (c : Int) :
    (d.setCount k c).count k' = if k' = k then c else d.count k' := update_apply ..

variable {p : Pc}

theorem pcOk (h : Inv d) (hpc : d.pc t = p) : PcOk d p := hpc ▸ h.pc t

/-- A thread moves on: to a place it may be at, to a late begin only on a live device, and into
the remove path only if no other thread is there. -/
theorem move (h : Inv d) (hok : PcOk d p) (hlate : p.late = true → d.state = .live)
    (hadm : p.admin = true → ∀ t', t' ≠ t → (d.pc t').admin = false) : Inv (d.setPc t p) := by
  have hlate' : d.state ≠ .live → (∀ t', (d.pc t').late = false) →
      ∀ t', ((d.setPc t p).pc t').late = false := by grind
  have hmono : ∀ q, PcOk d q → PcOk (d.setPc t p) q := by
    intro q hq
    cases q with
    | resetOpens => exact ⟨hq.1, hq.2.1, hlate' (by rw [hq.1]; decide) hq.2.2⟩
    | resetIo | resetState =>
      exact ⟨hq.1, hq.2.1, hlate' (by rw [hq.1]; decide) hq.2.2.1, hq.2.2.2⟩
    | _ => exact hq
  refine { h with locked := ?_, pc := ?_, admin := ?_ }
  · intro hdn t' hl
    rw [setPc_pc] at hl
    split at hl
    · exact absurd (hlate hl) (h.off hdn)
    · exact h.locked hdn t' hl
  · intro t'
    rw [setPc_pc]
    split
    · exact hmono p hok
    · exact hmono _ (h.pc t')
  · intro t1 t2 h1 h2
    have hadmin := h.admin t1 t2
    grind

theorem ret (h : Inv d) (rc : Rc) : Inv (d.ret t rc) := by
  have hm := h.move (t := t) (p := .idle) trivial (by simp) (by simp)
  exact { hm with }

/-- The thread of the remove path moves on there. -/
theorem others (h : Inv d) (ht : (d.pc t).admin = true) : ∀ t', t' ≠ t → (d.pc t').admin = false := by
  intro t' hne
  by_contra hp
  exact hne (h.admin t' t (by simpa using hp) ht)

section
variable (h : Inv d)
include h

variable {count : Kind → Int} {held : Kind → Nat}

/-- A device that is up has no thread in `dev_lc_remove_finish`, so that only a drain depends on
the counters. -/
theorem pcOk_recount (hup : d.down = false) (hd : d.count .opens = -1 → count .opens = -1)
    (t : Fin n) : PcOk { d with count := count, held := held } (d.pc t) := by
  cases he : d.pc t with
  | drainIo =>
    obtain ⟨hs, hdn, hc⟩ := h.pcOk he
    exact ⟨hs, hdn, hd hc⟩
  | resetOpens | resetIo | resetState =>
    exact Bool.noConfusion ((h.pcOk he).2.1.symm.trans hup)
  | _ => exact h.pcOk he

/-- A change of counters on a device that is up. -/
theorem recount (hup : d.down = false)
    (hc : ∀ k, (count k = -1 ∧ held k = 0 ∧ d.removing = true) ∨ count k = held k)
    (hd : d.count .opens = -1 → count .opens = -1) : Inv { d with count := count, held := held } where
  count := hc
  removing := h.removing
  quiet hdn := Bool.noConfusion (hdn.symm.trans hup)
  off := h.off
  locked hdn := Bool.noConfusion (hdn.symm.trans hup)
  uninit := h.uninit
  pc := h.pcOk_recount hup hd
  admin := h.admin

variable {k : Kind}

/-- A counter that is not locked moves together with what is held. -/
theorem rescale (hup : d.down = false) (hin : d.count k = d.held k) {c : Int} {m : Nat}
    (hcm : c = m) : Inv { d with count := update d.count k c, held := update d.held k m } := by
  apply h.recount hup
  · intro k'
    have hc := h.count k'
    grind
  · intro hop
    grind

theorem count_of_nonneg (hc : 0 ≤ d.count k) : d.count k = d.held k := by
  rcases h.count k with ⟨he, -⟩ | he
  · omega
  · exact he

variable {old : Int}

/-- A begin whose compare-and-swap succeeds is on a device that is up. -/
theorem up_of_cas (hpc : d.pc t = .beginChecked k old)
    (hold : 0 ≤ old) (hc : d.count k = old) : d.down = false := by
  by_contra hdn
  have hdn : d.down = true := by simpa using hdn
  have hheld := h.quiet hdn k
  have hin := h.count_of_nonneg (hc ▸ hold)
  have h0 : old = 0 := by omega
  have hl := h.locked hdn t (by rw [hpc, h0]; rfl) k
  omega

theorem beginCas (hpc : d.pc t = .beginChecked k old) : Inv (d.beginCas t k old) := by
  have hold : 0 ≤ old := h.pcOk hpc
  unfold Dev.beginCas
  split
  · rename_i hc
    have hin := h.count_of_nonneg (hc ▸ hold)
    apply ret
    apply h.rescale (h.up_of_cas hpc hold hc) hin
    change old + 1 = ((d.held k + 1 : Nat) : Int)
    omega
  · exact h.move trivial (by simp) (by simp)

theorem up_of_held (hpos : 0 < d.held k) : d.down = false := by
  by_contra hdn
  have hheld := h.quiet (by simpa using hdn) k
  omega

/-- One begin of `k` less is held. -/
theorem lower (hin : d.count k = d.held k) (hpos : 0 < d.held k) :
    Inv ((d.setCount k (d.count k - 1)).give k) := by
  apply h.rescale (h.up_of_held hpos) hin
  change d.count k - 1 = ((d.held k - 1 : Nat) : Int)
  omega

theorem endOn (hpos : 0 < d.held k) : Inv ((d.setCount k (d.count k - 1)).give k) := by
  apply h.lower _ hpos
  rcases h.count k with ⟨-, he, -⟩ | he
  · omega
  · exact he

theorem closeCas (hold : 0 < old) : Inv (d.closeCas t old) := by
  unfold Dev.closeCas
  split
  · rename_i hc
    have hin := h.count_of_nonneg (k := .opens) (by omega)
    apply ret
    rw [← hc]
    exact h.lower hin (by omega)
  · exact h.move trivial (by simp) (by simp)

end

/-! ## The remove path -/

/-- A thread outside of the remove path knows nothing about the device. -/
theorem pcOk_of_not_admin (hp : p.admin = false) (hok : PcOk d p) : PcOk d' p := by
  cases p with
  | idle | beginStart | closeStart => trivial
  | beginLoaded | beginChecked | closeLoaded => exact hok
  | _ => exact Bool.noConfusion hp

section
variable (h : Inv d)
include h

/-- When the thread of the remove path returns, nobody depends on the device any more. -/
theorem pcOk_ret (ht : (d.pc t).admin = true) (t' : Fin n) : PcOk d' ((d.setPc t .idle).pc t') := by
  rw [setPc_pc]
  split
  · trivial
  · rename_i he
    exact pcOk_of_not_admin (h.others ht t' he) (h.pc t')

theorem removeStart (hs : d.state = .live) (hno : ∀ t, (d.pc t).admin = false) :
    Inv { d with state := .removing, removing := true } := by
  have hup : d.down = false := by
    by_contra hdn
    exact h.off (by simpa using hdn) hs
  refine ⟨?_, ⟨fun _ => rfl, fun _ => rfl⟩, h.quiet, fun _ => nofun, ?_, nofun, ?_, h.admin⟩
  · intro k
    rcases h.count k with ⟨he, hh, -⟩ | he
    · exact .inl ⟨he, hh, rfl⟩
    · exact .inr he
  · intro hdn
    exact Bool.noConfusion (hdn.symm.trans hup)
  · intro t
    exact pcOk_of_not_admin (hno t) (h.pc t)

/-- `dev_lc_remove_drain` locks the opens. -/
theorem drainOpens (hpc : d.pc t = .drainOpens) (hc : d.count .opens = 0) :
    Inv ((d.setCount .opens (-1)).setPc t .drainIo) := by
  obtain ⟨hs, hup⟩ := h.pcOk hpc
  have hin := h.count_of_nonneg (k := .opens) (by omega)
  have hlock : Inv (d.setCount .opens (-1)) := by
    apply h.recount hup
    · intro k
      cases k with
      | opens => exact .inl ⟨rfl, by omega, h.removing.mpr hs⟩
      | ioActive => exact h.count .ioActive
    · intro _
      rfl
  exact hlock.move ⟨hs, hup, rfl⟩ (by simp) fun _ => h.others (by rw [hpc]; rfl)

/-- `dev_lc_remove_drain` locks the I/O and returns OK. -/
theorem drainIo (hpc : d.pc t = .drainIo) (hc : d.count .ioActive = 0) :
    Inv ({ d.setCount .ioActive (-1) with down := true }.ret t .ok) := by
  obtain ⟨hs, -, hop⟩ := h.pcOk hpc
  have hr := h.ret (t := t) .ok
  have hrem := h.removing.mpr hs
  have hopens : d.held .opens = 0 := by
    rcases h.count .opens with ⟨-, he, -⟩ | he
    · exact he
    · omega
  have hio : d.held .ioActive = 0 := by
    have hin := h.count_of_nonneg (k := .ioActive) (by omega)
    omega
  refine ⟨?_, h.removing, ?_, ?_, ?_, fun _ => rfl, ?_, hr.admin⟩
  · intro k
    cases k with
    | opens => exact .inl ⟨hop, hopens, hrem⟩
    | ioActive => exact .inl ⟨rfl, hio, hrem⟩
  · intro _ k
    cases k with
    | opens => exact hopens
    | ioActive => exact hio
  · intro _ hl
    exact LcState.noConfusion (hs.symm.trans hl)
  · intro _ _ _ k
    cases k with
    | opens => exact hop
    | ioActive => rfl
  · exact h.pcOk_ret (by rw [hpc]; rfl)

theorem not_drainIo (hdn : d.down = true) (t : Fin n) : d.pc t ≠ .drainIo := by
  intro he
  exact Bool.noConfusion ((h.pcOk he).2.1.symm.trans hdn)

/-- A store of 0 to a counter of a device that is down and on which no begin is late. -/
theorem clear (hdn : d.down = true) (hl : ∀ t, (d.pc t).late = false) (k : Kind) :
    Inv (d.setCount k 0) where
  count k' := by
    rw [setCount_count]
    split
    · exact .inr (by rw [Dev.setCount, h.quiet hdn k']; rfl)
    · exact h.count k'
  removing := h.removing
  quiet := h.quiet
  off := h.off
  locked _ t ht := Bool.noConfusion (ht.symm.trans (hl t))
  uninit := h.uninit
  pc t := by
    change PcOk (d.setCount k 0) (d.pc t)
    cases he : d.pc t with
    | drainIo => exact absurd he (h.not_drainIo hdn t)
    | resetIo =>
      obtain ⟨hs, -, -, hc⟩ := h.pcOk he
      refine ⟨hs, hdn, hl, ?_⟩
      cases k with
      | opens => rfl
      | ioActive => exact hc
    | resetState =>
      obtain ⟨hs, -, -, hc⟩ := h.pcOk he
      refine ⟨hs, hdn, hl, fun k' => ?_⟩
      rw [setCount_count, hc, ite_self]
    | _ => exact h.pcOk he
  admin := h.admin

/-- Nobody is late on a device that is not initialised. -/
theorem not_late (hs : d.state = .uninitialized) (t : Fin n) : (d.pc t).late = false := by
  by_contra hl
  have hc := h.locked (h.uninit hs) t (by simpa using hl) .opens
  rcases h.count .opens with ⟨-, -, hr⟩ | he
  · exact LcState.noConfusion (hs.symm.trans (h.removing.mp hr))
  · omega

/-- The last store of `dev_lc_remove_finish`. -/
theorem resetState (hpc : d.pc t = .resetState) :
    Inv ({ d with state := .uninitialized, removing := false }.ret t .ok) := by
  obtain ⟨-, hdn, hl, hc⟩ := h.pcOk hpc
  have hr := h.ret (t := t) .ok
  refine ⟨?_, ⟨nofun, nofun⟩, h.quiet, fun _ => nofun, ?_, fun _ => hdn, ?_, hr.admin⟩
  · intro k
    right
    change d.count k = ((d.held k : Nat) : Int)
    rw [hc k, h.quiet hdn k]
    rfl
  · intro _ t' ht'
    have hi : ((d.setPc t .idle).pc t').late = true := ht'
    rw [setPc_pc] at hi
    split at hi
    · cases hi
    · exact Bool.noConfusion ((hl t').symm.trans hi)
  · exact h.pcOk_ret (by rw [hpc]; rfl)

/-- The last store of `dev_lc_init`. -/
theorem initState (hpc : d.pc t = .initState) :
    Inv ({ d with state := .live, down := false }.ret t .ok) := by
  have hs : d.state = .uninitialized := h.pcOk hpc
  have hr := h.ret (t := t) .ok
  have hrem : d.removing ≠ true := by
    intro he
    exact LcState.noConfusion (hs.symm.trans (h.removing.mp he))
  exact ⟨h.count, ⟨fun he => absurd he hrem, nofun⟩, nofun, nofun, nofun, nofun,
    h.pcOk_ret (by rw [hpc]; rfl), hr.admin⟩

theorem run (hr : d.run t = some d') : Inv d' := by
  have hp := h.pc t
  have ho := h.others (t := t)
  unfold Dev.run at hr
  cases hpc : d.pc t <;> rw [hpc] at hr hp ho <;> cases hr
  case beginStart k =>
    split
    · exact h.ret _
    · refine h.move ?_ (by simp) (by simp)
      change 0 ≤ d.count k
      omega
  case beginLoaded k old =>
    split
    · rename_i hs
      exact h.move hp (fun _ => hs) (by simp)
    · exact h.ret _
  case beginChecked k old => exact h.beginCas hpc
  case closeStart =>
    split
    · exact h.ret _
    · refine h.move ?_ (by simp) (by simp)
      change 0 < d.count .opens
      omega
  case closeLoaded old => exact h.closeCas hp
  case drainStart =>
    split
    · exact h.move hp (by simp) fun _ => ho rfl
    · exact h.ret _
  case drainOpens =>
    split
    · exact h.drainOpens hpc ‹_›
    · exact h
  case drainIo =>
    split
    · exact h.drainIo hpc ‹_›
    · exact h
  case resetOpens =>
    exact (h.clear hp.2.1 hp.2.2 .opens).move ⟨hp.1, hp.2.1, hp.2.2, rfl⟩ (by simp) fun _ => ho rfl
  case resetIo =>
    obtain ⟨hs, hdn, hl, hc⟩ := hp
    refine (h.clear hdn hl .ioActive).move ⟨hs, hdn, hl, ?_⟩ (by simp) fun _ => ho rfl
    intro k
    cases k with
    | opens => exact hc
    | ioActive => rfl
  case resetState => exact h.resetState hpc
  case initOpens =>
    exact (h.clear (h.uninit hp) (h.not_late hp) .opens).move hp (by simp) fun _ => ho rfl
  case initIo =>
    exact (h.clear (h.uninit hp) (h.not_late hp) .ioActive).move hp (by simp) fun _ => ho rfl
  case initState => exact h.initState hpc

theorem call {c : Call} (hok : NoneLate d (.call t c)) : Inv (d.call t c) := by
  cases c with
  | beginOn k | closeBegin => exact h.move trivial (by simp) (by simp)
  | endOn k => exact h.endOn hok.1
  | removeStart => exact h.removeStart hok.1.1 hok.1.2
  | removeDrain =>
    obtain ⟨⟨hs, hup, hno⟩, -⟩ := hok
    exact h.move ⟨hs, hup⟩ (by simp) fun _ t' _ => hno t'
  | removeFinish =>
    obtain ⟨⟨hs, hdn, hno⟩, hl⟩ := hok
    exact h.move ⟨hs, hdn, hl⟩ (by simp) fun _ t' _ => hno t'
  | init =>
    obtain ⟨⟨hs, hno⟩, -⟩ := hok
    exact h.move hs (by simp) fun _ t' _ => hno t'

theorem step {l : Label n} (hok : NoneLate d l) (hn : d.next l = some d') : Inv d' := by
  cases l with
  | call t c =>
    obtain ⟨-, rfl⟩ := ite_some_none_eq_some.mp hn
    exact h.call hok
  | run t => exact h.run hn
  | giveUp t =>
    obtain ⟨-, rfl⟩ := ite_some_none_eq_some.mp hn
    exact h.ret _

theorem teardownSafe : TeardownSafe d where
  quiet := h.quiet
  counts hr k := by
    rcases h.count k with ⟨-, -, he⟩ | he
    · exact Bool.noConfusion (he.symm.trans hr)
    · exact he

end

end Inv

theorem teardown_safe {n : Nat} {d : Dev n} (hr : ((Dev.system n).restrict NoneLate).Reachable d) :
    TeardownSafe d := by
  have hinv : Inv d := by
    induction hr with
    | init h0 =>
      subst h0
      exact .uninit_dev
    | step _ hs ih => exact ih.step hs.1 hs.2
  exact hinv.teardownSafe

/-- One thread opens, does I/O and closes, another removes the device meanwhile, and it is
initialised and opened again. -/
theorem teardown_safe_reopened :
    ∃ d : Dev 2, ((Dev.system 2).restrict NoneLate).Reachable d ∧ TeardownSafe d ∧
      d.state = .live ∧ d.count .opens = 1 := by
  obtain ⟨d, hr, hp⟩ := LTS.Reachable.of_execOk (· = Dev.uninit (n := 2)) Dev.next
    NoneLate Dev.uninit
    [.call 0 .init, .run 0, .run 0, .run 0, .call 0 (.beginOn .opens), .run 0, .run 0, .run 0,
      .call 0 (.beginOn .ioActive), .run 0, .run 0, .run 0,
      .call 1 .removeStart, .call 1 .removeDrain, .run 1, .run 1,
      .call 0 (.endOn .ioActive), .call 0 .closeBegin, .run 0, .run 0,
      .run 1, .run 1, .call 1 .removeFinish, .run 1, .run 1, .run 1,
      .call 1 .init, .run 1, .run 1, .run 1, .call 0 (.beginOn .opens), .run 0, .run 0, .run 0]
    (fun d => d.state = .live ∧ d.count .opens = 1) rfl (by decide +kernel)
  exact ⟨d, hr, teardown_safe hr, hp⟩

/-- An open that read 0 and saw a live device sleeps through the removal and succeeds on the
counter that `dev_lc_remove_finish` has set to 0. -/
theorem late_begin_succeeds :
    ∃ d : Dev 2, ((Dev.system 2).restrict Contract).Reachable d ∧ ¬ TeardownSafe d := by
  obtain ⟨d, hr, hdn, hh⟩ := LTS.Reachable.of_execOk (· = Dev.uninit (n := 2)) Dev.next
    Contract Dev.uninit
    [.call 0 .init, .run 0, .run 0, .run 0, .call 0 (.beginOn .opens), .run 0, .run 0,
      .call 1 .removeStart, .call 1 .removeDrain, .run 1, .run 1, .run 1,
      .call 1 .removeFinish, .run 1, .run 1, .run 1, .run 0]
    (fun d => d.down = true ∧ d.held .opens = 1) rfl (by decide +kernel)
  refine ⟨d, hr, fun hs => ?_⟩
  have h0 := hs.quiet hdn .opens
  omega

/-! ## One thread alone -/

section

variable {d : Dev n} {t : Fin n}

/-- The fields of `struct dev_lifecycle`. -/
def Dev.lc (d : Dev n) : Board.Lifecycle := ⟨d.count .opens, d.count .ioActive, d.state⟩

/-- `t` makes a call and takes its steps `ls` up to the return, and no other thread takes one. -/
def Dev.Alone (d : Dev n) (t : Fin n) (c : Call) (Q : Dev n → Prop) : Prop :=
  ∃ ls, (∀ l ∈ ls, l = .run t ∨ l = .giveUp t) ∧
    ∃ d', LTS.exec Dev.next d (.call t c :: ls) = some d' ∧ d'.pc t = .idle ∧ Q d'

attribute [local simp] LTS.exec Dev.next Dev.call Dev.run Dev.setPc Dev.setCount Dev.ret Dev.lc

variable (h : d.pc t = .idle)
include h

theorem alone_openBegin : d.Alone t (.beginOn .opens) fun d' => match d.lc.openBegin with
    | .ok (first, lc) => d'.lc = lc ∧ d'.rc t = if first then .edge else .ok
    | .error _ => d'.lc = d.lc ∧ d'.rc t = .nodev := by
  by_cases hneg : d.count .opens < 0
  · refine ⟨[.run t], by simp, ?_⟩
    simp [openBegin, h, hneg]
  by_cases hlive : d.state = .live
  · refine ⟨[.run t, .run t, .run t], by simp, ?_⟩
    simp [openBegin, h, hneg, hlive, Dev.beginCas, Dev.take]
  · refine ⟨[.run t, .run t], by simp, ?_⟩
    simp [openBegin, h, hneg, hlive]

theorem alone_closeBegin : d.Alone t .closeBegin fun d' => match d.lc.closeBegin with
    | .ok (last, lc) => d'.lc = lc ∧ d'.rc t = if last then .edge else .ok
    | .error _ => d'.lc = d.lc ∧ d'.rc t = .io := by
  by_cases hle : d.count .opens ≤ 0
  · refine ⟨[.run t], by simp, ?_⟩
    simp [closeBegin, h, hle]
  · refine ⟨[.run t, .run t], by simp, ?_⟩
    simp [closeBegin, h, hle, Dev.closeCas, Dev.give]
    exact (if_congr decide_eq_true_iff rfl rfl).symm

/-- The calls without a result. -/
theorem alone_stores : d.Alone t .init (·.lc = init) ∧ d.Alone t .removeFinish (·.lc = reset) ∧
    d.Alone t .removeStart (·.lc = d.lc.removeStart) ∧ d.Alone t (.endOn .opens) (·.lc = d.lc.openAbort) := by
  refine ⟨⟨replicate 3 (.run t), by simp, ?_⟩, ⟨replicate 3 (.run t), by simp, ?_⟩, ⟨[], by simp, ?_⟩,
    ⟨[], by simp, ?_⟩⟩
  · simp [replicate, init, h]
  · simp [replicate, reset, h]
  · simp [removeStart, h]
  · simp [Dev.give, openAbort, h]

end

/-! ## Drains that run out of time -/

/-- While a device is removed and no drain is on its way the counters are what is held, and once
nothing is held a drain returns OK. -/
def DrainRetries (d : Dev n) : Prop :=
  d.state = .removing → d.down = false → (∀ t, (d.pc t).admin = false) →
    (∀ k, d.count k = d.held k) ∧
    ((∀ k, d.held k = 0) → ∀ t, d.pc t = .idle →
      ∃ m d', LTS.exec Dev.next d (.call t .removeDrain :: replicate m (.run t)) = some d' ∧
        d'.pc t = .idle ∧ d'.rc t = .ok)

/-- A drain runs out of time only while it waits for the opens. -/
def EarlyTimeouts (d : Dev n) (l : Label n) : Prop :=
  NoneLate d l ∧ ∀ t, l = .giveUp t → d.pc t ≠ .drainIo

instance (d : Dev n) (l : Label n) : Decidable (EarlyTimeouts d l) :=
  inferInstanceAs (Decidable (_ ∧ _))

/-- Unless the device is down, a locked counter has a drain that goes on with the I/O. -/
def Draining (d : Dev n) : Prop := d.down = false → ∀ k, d.count k = -1 → ∃ t, d.pc t = .drainIo

variable {d d' : Dev n} {t : Fin n} {l : Label n}

/-- A thread that is not such a drain moves, and no counter is locked. -/
theorem Draining.keep (h : Draining d) (hpc : d.pc t ≠ .drainIo)
    (hother : ∀ t', t' ≠ t → d'.pc t' = d.pc t') (hdown : d'.down = d.down)
    (hcount : ∀ k, d'.count k = -1 → d.count k = -1) : Draining d' := by
  intro hup k hk
  obtain ⟨t', ht'⟩ := h (hdown ▸ hup) k (hcount k hk)
  exact ⟨t', (hother t' fun he => hpc (he ▸ ht')).trans ht'⟩

theorem Draining.run (hi : Inv d) (h : Draining d) (hr : d.run t = some d') : Draining d' := by
  have hp := hi.pc t
  have hmove : d.pc t ≠ .drainIo → ∀ {d' : Dev n} {p : Pc}, d'.pc = update d.pc t p →
      d'.down = d.down → (∀ k, d'.count k = -1 → d.count k = -1) → Draining d' :=
    fun hpc {d' p} hd' => h.keep hpc fun t' ht' => by rw [hd', update_of_ne ht']
  have hset : ∀ {k c}, c ≠ -1 → ∀ k', update d.count k c k' = -1 → d.count k' = -1 := by
    intro k c hc k' hk'
    grind
  unfold Dev.run at hr
  cases hpc : d.pc t <;> rw [hpc] at hr hp hmove <;> cases hr
  case drainOpens =>
    split
    · exact fun _ _ _ => ⟨t, update_self ..⟩
    · exact h
  case drainIo =>
    split
    · exact nofun
    · exact h
  case initState =>
    intro _ k hk
    rcases hi.count k with ⟨-, -, hr⟩ | he
    · exact LcState.noConfusion (hp.symm.trans (hi.removing.mp hr))
    · have : d.count k = -1 := hk
      omega
  case beginChecked k old =>
    have hold : 0 ≤ old := hp
    unfold Dev.beginCas
    split
    · exact hmove nofun rfl rfl (hset (by omega))
    · exact hmove nofun rfl rfl fun _ => id
  case closeLoaded old =>
    have hold : 0 < old := hp
    unfold Dev.closeCas
    split
    · exact hmove nofun rfl rfl (hset (by omega))
    · exact hmove nofun rfl rfl fun _ => id
  case resetOpens | resetIo | initOpens | initIo => exact hmove nofun rfl rfl (hset (by decide))
  case resetState => exact hmove nofun rfl rfl fun _ => id
  all_goals split <;> exact hmove nofun rfl rfl fun _ => id

theorem Draining.step (hi : Inv d) (h : Draining d) (hok : EarlyTimeouts d l)
    (hn : d.next l = some d') : Draining d' := by
  have hmove : ∀ {t p}, d.pc t ≠ .drainIo → Draining (d.setPc t p) := fun hpc =>
    h.keep hpc (fun t' ht' => update_of_ne ht' ..) rfl fun _ => id
  cases l with
  | run t => exact h.run hi hn
  | giveUp t =>
    obtain ⟨-, rfl⟩ := ite_some_none_eq_some.mp hn
    exact hmove (hok.2 t rfl)
  | call t c =>
    obtain ⟨hidle, rfl⟩ := ite_some_none_eq_some.mp hn
    have hpc : d.pc t ≠ .drainIo := by rw [hidle]; nofun
    cases c with
    | endOn k =>
      have hpos : 0 < d.held k := hok.1.1
      refine h.keep hpc (fun _ _ => rfl) rfl fun k' hk' => ?_
      have hc := hi.count k
      change update d.count k (d.count k - 1) k' = -1 at hk'
      rw [update_apply] at hk'
      split at hk'
      · omega
      · exact hk'
    | removeStart => exact h
    | _ => exact hmove hpc

theorem drain_retries (hr : ((Dev.system n).restrict EarlyTimeouts).Reachable d) : DrainRetries d := by
  have hinv : Inv d ∧ Draining d := by
    induction hr with
    | init h0 =>
      subst h0
      exact ⟨.uninit_dev, nofun⟩
    | step _ hs ih => exact ⟨ih.1.step hs.1.1 hs.2, ih.2.step ih.1 hs.1 hs.2⟩
  intro hs hup hno
  have hcount : ∀ k, d.count k = d.held k := by
    intro k
    rcases hinv.1.count k with ⟨hk, -⟩ | he
    · obtain ⟨t, ht⟩ := hinv.2 hup k hk
      exact absurd (hno t) (by rw [ht]; decide)
    · exact he
  refine ⟨hcount, fun hheld t ht => ?_⟩
  have hz : ∀ k, d.count k = 0 := fun k => by rw [hcount, hheld]; rfl
  refine ⟨3, ?_⟩
  simp [replicate, LTS.exec, Dev.next, Dev.call, Dev.run, ht, hs, hz, Dev.setPc, Dev.setCount,
    Dev.ret]

/-- The first drain runs out of time on an open device. -/
theorem drain_retries_opened : ∃ d : Dev 2, ((Dev.system 2).restrict EarlyTimeouts).Reachable d ∧
    DrainRetries d ∧ d.state = .removing ∧ d.rc 1 = .timeout ∧ ∀ k, d.count k = 0 := by
  obtain ⟨d, hr, hs, hrc, ho, hio⟩ := LTS.Reachable.of_execOk (· = Dev.uninit (n := 2)) Dev.next
    EarlyTimeouts Dev.uninit
    [.call 0 .init, .run 0, .run 0, .run 0, .call 0 (.beginOn .opens), .run 0, .run 0, .run 0,
      .call 1 .removeStart, .call 1 .removeDrain, .run 1, .run 1, .giveUp 1,
      .call 0 .closeBegin, .run 0, .run 0]
    (fun d => d.state = .removing ∧ d.rc 1 = .timeout ∧ d.count .opens = 0 ∧ d.count .ioActive = 0)
    rfl (by decide +kernel)
  exact ⟨d, hr, drain_retries hr, hs, hrc, fun k => by cases k <;> assumption⟩

/-- A drain waits for the opens to come to 0. -/
theorem exec_drainOpens (hpc : d.pc t = .drainOpens) (hc : d.count .opens ≠ 0) (m : Nat) :
    LTS.exec Dev.next d (replicate m (.run t)) = some d := by
  induction m with
  | zero => rfl
  | succ m ih => simp [replicate_succ, LTS.exec, Dev.next, Dev.run, hpc, hc, ih]

/-- The first drain runs out of time behind an I/O and leaves the opens locked, on which the second
one waits for a 0. -/
theorem drain_waits_for_itself :
    ∃ d : Dev 2, ((Dev.system 2).restrict NoneLate).Reachable d ∧ ¬ DrainRetries d := by
  obtain ⟨d, hr, ⟨hs, hup, hno⟩, ⟨ho, hio⟩, ht, hc⟩ :=
    LTS.Reachable.of_execOk (· = Dev.uninit (n := 2)) Dev.next NoneLate Dev.uninit
    [.call 0 .init, .run 0, .run 0, .run 0, .call 0 (.beginOn .ioActive), .run 0, .run 0, .run 0,
      .call 1 .removeStart, .call 1 .removeDrain, .run 1, .run 1, .run 1, .giveUp 1,
      .call 0 (.endOn .ioActive)]
    (fun d => (d.state = .removing ∧ d.down = false ∧ ∀ t, (d.pc t).admin = false) ∧
      (d.held .opens = 0 ∧ d.held .ioActive = 0) ∧ d.pc 1 = .idle ∧ d.count .opens ≠ 0)
    rfl (by decide +kernel)
  refine ⟨d, hr, fun h => ?_⟩
  obtain ⟨m, d', hd', hidle, -⟩ := (h hs hup hno).2 (fun k => by cases k <;> assumption) 1 ht
  have hrun : (d.setPc 1 .drainStart).run 1 = some (d.setPc 1 .drainOpens) := by
    simp [Dev.run, Dev.setPc, hs]
  have hwait := exec_drainOpens (d := d.setPc 1 .drainOpens) (t := 1) (by simp [Dev.setPc]) hc
  cases m <;> simp [replicate_succ, LTS.exec, Dev.next, ht, Dev.call, hrun, hwait] at hd' <;>
  · rw [← hd'] at hidle
    simp [Dev.setPc] at hidle

end MiniTree.Board.Lifecycle
