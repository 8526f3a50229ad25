import Mathlib.Algebra.Order.Ring.Nat
import MiniTree.Core.LTS

/-!
# The bare-metal mutex on several cores (`core/src/mini_backend_bare.c`)

With `CONFIG_CPU_CORES > 1` the mutex is two atomics, the lock word and the recursion depth,
and no owner. A label is one atomic access of one core; the cores are numbered and there may be
any number of them. `held` is a history variable: a core's successful locks that no unlock has
taken back.

A failed exchange on a recursive mutex is taken for a re-entry of the holder, whichever core it
came from. `Orderly` excludes that, and unlocks by a core that holds nothing; under it
`excludes_of_orderly` shows mutual exclusion for both kinds of mutex.
-/

namespace MiniTree.Bare.CoreMutex

open MiniTree.Core Function Option Nat

/-- A core inside `mini_mutex_lock` or `mini_mutex_unlock`, by its next atomic access. -/
inductive Pc where
  | idle
  | cas
  /-- the exchange succeeded, `depth = 1` is next -/
  | storeOne
  | loadDepth
  | storeDepth (depth : Nat)
  /-- `mini_mutex_try_acquire` returned `MINI_ERR_BUSY` -/
  | busy
  | unlockLoad
  | unlockStore (depth : Nat)
  | unlockZero
  | unlockFree
  deriving DecidableEq

/-- mirrors mini_backend_bare.c:54-58 (`struct mini_mutex`), with the cores -/
structure State where
  recursive : Bool
  lock : Nat
  depth : Nat
  pc : Nat → Pc
  held : Nat → Nat

def State.goto (s : State) (i : Nat) (p : Pc) : State := { s with pc := update s.pc i p }

def State.ret (s : State) (i n : Nat) : State :=
  { s with pc := update s.pc i .idle, held := update s.held i n }

/-- mirrors mini_backend_bare.c:77-95 (`mini_mutex_try_acquire`), 144-175
(`mini_mutex_lock`) and 177-198 (`mini_mutex_unlock`): the next access of core `i` -/
def run (s : State) (i : Nat) : Option State :=
  match s.pc i with
  | .idle => none
  | .cas =>
    if s.lock = 0 then some ({ s with lock := 1 }.goto i .storeOne)
    else some (s.goto i (if s.recursive then .loadDepth else .busy))
  | .storeOne => some ({ s with depth := 1 }.ret i (s.held i + 1))
  | .loadDepth => some (s.goto i (if s.depth = 0 then .busy else .storeDepth s.depth))
  | .storeDepth d => some ({ s with depth := (d + 1) % 2 ^ 32 }.ret i (s.held i + 1))
  | .busy => some (s.goto i .cas)
  | .unlockLoad =>
    some (s.goto i (if s.depth = 0 then .idle else if 1 < s.depth then .unlockStore s.depth
      else .unlockZero))
  | .unlockStore d => some ({ s with depth := d - 1 }.ret i (s.held i - 1))
  | .unlockZero => some ({ s with depth := 0 }.goto i .unlockFree)
  | .unlockFree => some ({ s with lock := 0 }.ret i (s.held i - 1))

/-- `giveUp` is the return of `MINI_ERR_TIMEOUT`. -/
inductive Label where
  | lock (i : Nat)
  | unlock (i : Nat)
  | giveUp (i : Nat)
  | run (i : Nat)

def step (s : State) : Label → Option State
  | .lock i => if s.pc i = .idle then some (s.goto i .cas) else none
  | .unlock i => if s.pc i = .idle then some (s.goto i .unlockLoad) else none
  | .giveUp i => if s.pc i = .busy then some (s.goto i .idle) else none
  | .run i => run s i

/-- mirrors mini_backend_bare.c:63-74 (`mini_mutex_init`) -/
def init (recursive : Bool) : State := ⟨recursive, 0, 0, fun _ => .idle, fun _ => 0⟩

def sys (recursive : Bool) : LTS State Label := .ofFn (· = init recursive) step

/-- At most one core holds the mutex, and it is free exactly when nobody holds or is taking it. -/
def Excludes (s : State) : Prop := (∀ i j, 0 < s.held i → 0 < s.held j → i = j) ∧
    (s.lock = 0 ↔ ∀ i, s.held i = 0 ∧ s.pc i ≠ .storeOne)

/-- Only the holder unlocks, only the holder re-enters a recursive mutex, and not `2^32` times. -/
def Orderly (s : State) : Label → Prop
  | .unlock i => 0 < s.held i
  | .run i => (s.pc i = .cas → s.recursive = true → s.lock ≠ 0 → 0 < s.held i) ∧
      s.held i + 1 < 2 ^ 32
  | _ => True

instance (s : State) (l : Label) : Decidable (Orderly s l) := by
  cases l <;> unfold Orderly <;> infer_instance

/-- Where a core that owns the lock word stands, with its number of locks. -/
def Fits (depth held : Nat) : Pc → Prop
  | .storeOne => held = 0
  | .unlockStore d => d = held ∧ depth = held ∧ 1 < held
  | .unlockZero => held = 1
  | .unlockFree => held = 1
  | .storeDepth d => d = held ∧ depth = held ∧ 0 < held
  | _ => depth = held ∧ 0 < held

/-- A core that does not own the lock word. -/
def Outside (p : Pc) : Prop := p = .idle ∨ p = .cas ∨ p = .busy

/-- `o` is the core whose exchange set the lock word. -/
structure Inv (o : Option Nat) (s : State) : Prop where
  lock : s.lock = 0 ↔ o = none
  owner : ∀ i, o = some i → Fits s.depth (s.held i) (s.pc i)
  others : ∀ i, o ≠ some i → s.held i = 0 ∧ Outside (s.pc i)

section
variable {o : Option Nat} {s s' : State} {i : Nat}

section
variable (h : Inv o s)
include h

theorem Inv.excludes : Excludes s := by
  have hown : ∀ i, 0 < s.held i → o = some i := fun i hi =>
    Decidable.byContradiction fun ho => by simp [(h.others i ho).1] at hi
  refine ⟨fun i j hi hj => some.inj ((hown i hi).symm.trans (hown j hj)), ?_⟩
  rw [h.lock]
  refine ⟨?_, fun hz => eq_none_iff_forall_ne_some.mpr fun i hi => ?_⟩
  · rintro rfl i
    obtain ⟨hh, hp⟩ := h.others i nofun
    exact ⟨hh, by rintro hs; simp [Outside, hs] at hp⟩
  · have hf := h.owner i hi
    rw [(hz i).1] at hf
    cases hp : s.pc i <;> simp_all [Fits]

/-- One core moves; the owner of the lock word and the other cores stay. -/
theorem Inv.move {d n : Nat} {p : Pc}
    (hd : o ≠ some i → d = s.depth ∧ n = 0 ∧ Outside p) (ho : o = some i → Fits d n p) :
    Inv o { s with depth := d, pc := update s.pc i p, held := update s.held i n } := by
  refine ⟨h.lock, fun j hj => ?_, fun j hj => ?_⟩ <;> rcases eq_or_ne j i with rfl | hne
  · simpa using ho hj
  · have hoi : o ≠ some i := fun hc => hne (some.inj (hj.symm.trans hc))
    simpa [hne, (hd hoi).1] using h.owner j hj
  · simpa using (hd hj).2
  · simpa [hne] using h.others j hj

theorem Inv.goto {p : Pc} (hout : o ≠ some i → Outside p)
    (ho : o = some i → Fits s.depth (s.held i) p) : Inv o (s.goto i p) := by
  have hm := h.move (fun hc => ⟨rfl, (h.others i hc).1, hout hc⟩) ho
  rwa [update_eq_self] at hm

/-- A core that is not in one of the states outside owns the lock word. -/
theorem Inv.owner_of (hp : ¬ Outside (s.pc i)) : o = some i :=
  Decidable.byContradiction fun ho => hp (h.others i ho).2

theorem Inv.run (hok : Orderly s (.run i)) (hs : run s i = some s') : ∃ o', Inv o' s' := by
  obtain ⟨hre, hlt⟩ := hok
  have hfit := h.owner i
  have howner := h.owner_of (i := i)
  unfold CoreMutex.run at hs
  split at hs <;> rename_i hp <;> simp only [hp, Fits, Outside] at hfit howner
  · cases hs
  · split at hs <;> rename_i hl <;> cases hs
    · obtain rfl := h.lock.mp hl
      refine ⟨some i, by simp [State.goto], fun j hj => ?_, fun j hj => ?_⟩
      · obtain rfl := some.inj hj
        simp [State.goto, Fits, h.others]
      · have hne : j ≠ i := fun hc => hj (hc ▸ rfl)
        simpa [State.goto, hne] using h.others j nofun
    · refine ⟨o, h.goto (fun ho => ?_) fun ho => ?_⟩
      · have hplain : s.recursive ≠ true := fun hr =>
          ne_of_gt (hre hp hr hl) (h.others i ho).1
        simp [hplain, Outside]
      · split <;> exact hfit ho
  · cases hs
    obtain rfl := howner (by simp)
    exact ⟨_, h.move (absurd rfl) fun _ => by simp [Fits, hfit]⟩
  · cases hs
    obtain rfl := howner (by simp)
    obtain ⟨hd, hpos⟩ := hfit rfl
    refine ⟨_, h.goto (absurd rfl) fun _ => ?_⟩
    rw [if_neg (by omega)]
    exact ⟨hd, hd, hpos⟩
  · cases hs
    obtain rfl := howner (by simp)
    obtain ⟨rfl, -, hpos⟩ := hfit rfl
    exact ⟨_, h.move (absurd rfl) fun _ => ⟨mod_eq_of_lt hlt, succ_pos _⟩⟩
  · cases hs
    exact ⟨o, h.goto (fun _ => .inr (.inl rfl)) hfit⟩
  · cases hs
    obtain rfl := howner (by simp)
    obtain ⟨hd, hpos⟩ := hfit rfl
    refine ⟨_, h.goto (absurd rfl) fun _ => ?_⟩
    rw [if_neg (by omega), hd]
    split
    · exact ⟨rfl, rfl, ‹_›⟩
    · exact le_antisymm (Nat.le_of_not_lt ‹_›) hpos
  · cases hs
    obtain rfl := howner (by simp)
    obtain ⟨rfl, -, hgt⟩ := hfit rfl
    exact ⟨_, h.move (absurd rfl) fun _ => ⟨rfl, Nat.sub_pos_of_lt hgt⟩⟩
  · cases hs
    obtain rfl := howner (by simp)
    have hm := h.move (d := 0) (p := .unlockFree) (absurd rfl) fun _ => hfit rfl
    rw [update_eq_self] at hm
    exact ⟨_, hm⟩
  · cases hs
    obtain rfl := howner (by simp)
    refine ⟨none, by simp [State.ret], nofun, fun j _ => ?_⟩
    rcases eq_or_ne j i with rfl | hne
    · simp [State.ret, Outside, hfit]
    · simpa [State.ret, hne] using h.others j fun hc => hne (some.inj hc).symm

theorem Inv.step {l : Label} (hok : Orderly s l) (hs : step s l = some s') : ∃ o', Inv o' s' := by
  cases l with
  | run i => exact h.run hok hs
  | lock i =>
    obtain ⟨hp, rfl⟩ := ite_some_none_eq_some.mp hs
    exact ⟨o, h.goto (fun _ => .inr (.inl rfl)) fun ho => by simpa [hp, Fits] using h.owner i ho⟩
  | unlock i =>
    obtain ⟨hp, rfl⟩ := ite_some_none_eq_some.mp hs
    refine ⟨o, h.goto (fun ho => ?_) fun ho => by simpa [hp, Fits] using h.owner i ho⟩
    exact absurd (h.others i ho).1 hok.ne'
  | giveUp i =>
    obtain ⟨hp, rfl⟩ := ite_some_none_eq_some.mp hs
    exact ⟨o, h.goto (fun _ => .inl rfl) fun ho => by simpa [hp, Fits] using h.owner i ho⟩

end

end

theorem inv_runs (recursive : Bool) : ((sys recursive).restrict Orderly).IsInvariant
    fun s => ∃ o, Inv o s where
  init s hs := by
    cases hs
    exact ⟨none, by simp [CoreMutex.init], nofun, fun i _ => ⟨rfl, .inl rfl⟩⟩
  step := fun _ _ _ ⟨_, h⟩ hs => h.step hs.1 hs.2

theorem excludes_of_orderly (recursive : Bool) {s : State}
    (h : ((sys recursive).restrict Orderly).Reachable s) : Excludes s :=
  ((inv_runs recursive).holds h).elim fun _ hi => hi.excludes

/-- A recursive mutex, locked twice by its holder. -/
theorem excludes_twice : ∃ s, ((sys true).restrict Orderly).Reachable s ∧ s.held 7 = 2 ∧ Excludes s := by
  obtain ⟨s, hr, hs⟩ := LTS.Reachable.of_execOk (· = init true) step Orderly (init true)
    [.lock 7, .run 7, .run 7, .lock 7, .run 7, .run 7, .run 7] (fun s => s.held 7 = 2) rfl (by decide)
  exact ⟨s, hr, hs, excludes_of_orderly true hr⟩

/-- Core 1 finds the lock word taken and counts itself in. -/
theorem excludes_fails_for_recursive :
    ¬ ∀ (recursive : Bool) (s : State), (sys recursive).Reachable s → Excludes s := by
  intro h
  obtain ⟨s, hr, h0, h1⟩ := LTS.Reachable.of_exec (· = init true) step (init true)
    [.lock 0, .run 0, .run 0, .lock 1, .run 1, .run 1, .run 1]
    (fun s => 0 < s.held 0 ∧ 0 < s.held 1) rfl (by decide)
  exact absurd ((h true s hr).1 0 1 h0 h1) (by decide)

end MiniTree.Bare.CoreMutex
