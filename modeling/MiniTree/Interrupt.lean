import MiniTree.Core.LTS
import MiniTree.Algorithm.FifoRefines

/-!
# Bottom halves (`interrupt/interrupt.h`, `interrupt/interrupt.c`)

Interrupts submit work items; `bottom_half_run_pending` takes them from a single-producer ring and
runs them. The consumer moves one access at a time (the accesses of `fifo_read_data` and
`fifo_write_data` included), and an interrupt, which runs to completion, may come between any two of
them. An empty ring ends a call of `bottom_half_run_pending`; the model goes on with the next call.

`owed w` is history: a submit of `w` returned OK and no execution of `w` has started since.

**Results.** `none_lost`: nothing is lost and the ring never holds an item twice when no interrupt
submits an item between the clearing of its `executing` and of its `pending` flag, unless a rerun
is noted already, and none queues an item while the consumer is between the read and the store of
the write index for a rerun. `submit_in_gap_lost` loses a submit in the first gap.
-/

namespace MiniTree.Interrupt

open MiniTree.Core Algorithm Function List Nat Option Prod

/-- The next access of the consumer, with its local variables. -/
inductive Pc (ω : Type*) where
  /-- `fifo_read_data`: load the write index -/
  | load
  /-- load the read index and compare -/
  | loadR (w : UInt16)
  | fetch (r : UInt16)
  /-- store the read index -/
  | release (r : UInt16) (x : ω)
  /-- set `executing` -/
  | start (x : ω)
  | callFn (x : ω)
  | inFn (x : ω)
  /-- clear `executing` -/
  | stop (x : ω)
  /-- clear `pending` -/
  | clear (x : ω)
  /-- exchange `rerun` -/
  | exchange (x : ω)
  /-- `bottom_half_submit_rerun`: compare and swap `pending` -/
  | rerunCas (x : ω)
  /-- `fifo_write_data`: load the read index -/
  | rerunLoadR (x : ω)
  /-- load the write index and compare -/
  | rerunLoadW (x : ω) (r : UInt16)
  /-- write the cell -/
  | rerunWrite (x : ω) (w : UInt16)
  /-- store the write index -/
  | rerunStore (x : ω) (w : UInt16)
  /-- the ring is full: clear `pending` -/
  | rerunFail (x : ω)
  /-- set `executing` -/
  | rerunStart (x : ω)
  | rerunCall (x : ω)
  | rerunIn (x : ω)
  /-- clear `executing` -/
  | rerunStop (x : ω)
  deriving DecidableEq

structure State (ω : Type*) where
  fifo : Spsc ω
  pending : ω → Bool
  executing : ω → Bool
  rerun : ω → Bool
  pc : Pc ω
  owed : ω → Bool

inductive Label (ω : Type*) where
  | submit (work : ω)
  | run

namespace State

variable {ω : Type*} [DecidableEq ω]

section
variable (s : State ω) (work : ω)

/-- The item is queued, coalesced with a queued one or noted for a rerun (OK), or dropped because
the ring is full.
mirrors interrupt.h:232-251 (`bottom_half_submit_from_isr`) -/
def submitFromIsr : State ω × Bool :=
  if s.pending work then
    (if s.executing work then { s with rerun := update s.rerun work true } else s, true)
  else
    match s.fifo.writeData work with
    | (.ok, fifo) => ({ s with fifo := fifo, pending := update s.pending work true }, true)
    | (_, _) => (s, false)

/-- An interrupt that submits `work`. -/
def submit : State ω :=
  match s.submitFromIsr work with
  | (s, true) => { s with owed := update s.owed work true }
  | (s, false) => s

/-- The next access of the consumer.
mirrors interrupt.c:133-156 (`bottom_half_run_pending`),
interrupt.h:209-222 (`bottom_half_submit_rerun`),
algorithm/buffer/circle_fifo_buffer.c:27-48, 92-108 (`fifo_write_data`, `fifo_read_data`) -/
def run : State ω :=
  match s.pc with
  | .load => { s with pc := .loadR s.fifo.wPtr }
  | .loadR w => if s.fifo.rPtr = w then { s with pc := .load } else { s with pc := .fetch s.fifo.rPtr }
  | .fetch r => { s with pc := .release r (s.fifo.buf (r &&& s.fifo.mask).toNat) }
  | .release r x => { s with fifo := { s.fifo with rPtr := r + 1 }, pc := .start x }
  | .start x => { s with executing := update s.executing x true, pc := .callFn x }
  | .callFn x => { s with owed := update s.owed x false, pc := .inFn x }
  | .inFn x => { s with pc := .stop x }
  | .stop x => { s with executing := update s.executing x false, pc := .clear x }
  | .clear x => { s with pending := update s.pending x false, pc := .exchange x }
  | .exchange x =>
    if s.rerun x then { s with rerun := update s.rerun x false, pc := .rerunCas x }
    else { s with pc := .load }
  | .rerunCas x =>
    if s.pending x then { s with pc := .load }
    else { s with pending := update s.pending x true, pc := .rerunLoadR x }
  | .rerunLoadR x => { s with pc := .rerunLoadW x s.fifo.rPtr }
  | .rerunLoadW x r =>
    if s.fifo.size ≤ s.fifo.wPtr - r then { s with pc := .rerunFail x }
    else { s with pc := .rerunWrite x s.fifo.wPtr }
  | .rerunWrite x w =>
    { s with
      fifo := { s.fifo with buf := copyTo s.fifo.buf (w &&& s.fifo.mask).toNat [x] }
      pc := .rerunStore x w }
  | .rerunStore _ w => { s with fifo := { s.fifo with wPtr := w + 1 }, pc := .load }
  | .rerunFail x => { s with pending := update s.pending x false, pc := .rerunStart x }
  | .rerunStart x => { s with executing := update s.executing x true, pc := .rerunCall x }
  | .rerunCall x => { s with owed := update s.owed x false, pc := .rerunIn x }
  | .rerunIn x => { s with pc := .rerunStop x }
  | .rerunStop x => { s with executing := update s.executing x false, pc := .exchange x }

def next : Label ω → Option (State ω)
  | .submit work => some (s.submit work)
  | .run => some s.run

/-- A ring that `fifo_init` accepted, and no item ever submitted. -/
def Initial : Prop := (∃ buf depth, fifoInit buf depth = some s.fifo) ∧ s.pc = .load ∧
    ∀ w, s.pending w = false ∧ s.executing w = false ∧ s.rerun w = false ∧ s.owed w = false

def system : LTS (State ω) (Label ω) := LTS.ofFn Initial next

def queued : List ω := s.fifo.copyOut s.fifo.rPtr s.fifo.count

end

/-- Once the ring is drained every accepted submit was followed by an execution, and no item is
queued twice. -/
structure NoneLost (s : State ω) : Prop where
  drained : s.pc = .load → s.fifo.isEmpty = true → ∀ w, s.owed w = false
  once : s.queued.Nodup

/-- Interrupts that keep out of the two gaps. -/
def OutOfGaps (s : State ω) : Label ω → Prop
  | .submit work =>
    (s.pc = .clear work → s.rerun work = true) ∧
      match s.pc with
      | .rerunWrite _ _ | .rerunStore _ _ => s.pending work = true
      | _ => True
  | .run => True

instance (s : State ω) : (l : Label ω) → Decidable (OutOfGaps s l)
  | .submit work => by
    unfold OutOfGaps
    cases s.pc <;> infer_instance
  | .run => .isTrue trivial

end State

/-! ## What the consumer's place says -/

namespace Pc

variable {ω : Type*}

/-- The item whose `pending` flag the consumer has set or not yet cleared, with the item not in
the ring. -/
@[simp] def held : Pc ω → Option ω
  | .start x | .callFn x | .inFn x | .stop x | .clear x | .rerunLoadR x | .rerunLoadW x _
  | .rerunWrite x _ | .rerunStore x _ | .rerunFail x => some x
  | _ => none

/-- The item whose `executing` flag is set. -/
@[simp] def exec : Pc ω → Option ω
  | .callFn x | .inFn x | .stop x | .rerunCall x | .rerunIn x | .rerunStop x => some x
  | _ => none

/-- The item whose `rerun` flag may be set. -/
@[simp] def mayRerun : Pc ω → Option ω
  | .callFn x | .inFn x | .stop x | .clear x | .exchange x | .rerunCall x | .rerunIn x
  | .rerunStop x => some x
  | _ => none

/-- The item that the consumer is about to run or to queue. -/
@[simp] def upcoming : Pc ω → Option ω
  | .start x | .callFn x | .rerunCas x | .rerunLoadR x | .rerunLoadW x _ | .rerunWrite x _
  | .rerunStore x _ | .rerunFail x | .rerunStart x | .rerunCall x => some x
  | _ => none

/-- What the local variables say about the ring. -/
def Located (h : Spsc ω) (xs : List ω) (n : Nat) : Pc ω → Prop
  | .loadR w => ∃ k ≤ n, w = h.rPtr + .ofNat k
  | .fetch r => r = h.rPtr ∧ 0 < n
  | .release r x => r = h.rPtr ∧ ∃ l, xs = x :: l
  | .rerunLoadW _ r => r = h.rPtr
  | .rerunWrite _ w => w = h.wPtr ∧ n < h.size.toNat
  | .rerunStore x w => w = h.wPtr ∧ n < h.size.toNat ∧
      window h.buf h.capacity (h.wPtr.toNat * h.itemSize.toNat) 1 = [x]
  | _ => True

theorem mayRerun_of_exec {p : Pc ω} {x : ω} (h : p.exec = some x) : p.mayRerun = some x := by
  cases p <;> first | exact h | cases h

/-- An item that is held and not executing is upcoming, but for the gap. -/
theorem upcoming_of_held {p : Pc ω} {x : ω} (h : p.held = some x) (he : p.exec ≠ some x) :
    p.upcoming = some x ∨ p = .clear x := by
  cases p <;> first
    | exact .inl h
    | exact absurd h he
    | exact .inr (congrArg _ (some.inj h))
    | cases h

end Pc

/-! ## What every run keeps -/

open Pc

variable {ω : Type*} {s : State ω} {xs : List ω} {n : Nat}

/-- The ring holds the `n` items `xs`. -/
structure Inv (s : State ω) (xs : List ω) (n : Nat) : Prop where
  rep : Rep s.fifo xs n
  one : s.fifo.itemSize = 1
  nodup : xs.Nodup
  located : s.pc.Located s.fifo xs n
  pending : ∀ w, s.pending w = true ↔ w ∈ xs ∨ s.pc.held = some w
  fresh : ∀ x, s.pc.held = some x → x ∉ xs
  exec : ∀ w, s.executing w = true ↔ s.pc.exec = some w
  rerun : ∀ w, s.rerun w = true → s.pc.mayRerun = some w
  owed : ∀ w, s.owed w = true → w ∈ xs ∨ s.rerun w = true ∨ s.pc.upcoming = some w

/-- What the flags of an item say when the consumer is at `p`. -/
structure Flags (s : State ω) (xs : List ω) (p : Pc ω) (w : ω) : Prop where
  pending : s.pending w = true ↔ w ∈ xs ∨ p.held = some w
  fresh : p.held = some w → w ∉ xs
  exec : s.executing w = true ↔ p.exec = some w
  rerun : s.rerun w = true → p.mayRerun = some w
  owed : s.owed w = true → w ∈ xs ∨ s.rerun w = true ∨ p.upcoming = some w

/-- The consumer's next access leaves the ring alone. -/
def Quiet : Pc ω → Prop
  | .release _ _ | .rerunWrite _ _ | .rerunStore _ _ => False
  | _ => True

theorem Flags.run [DecidableEq ω] {w : ω} (f : Flags s xs s.pc w) (hq : Quiet s.pc) :
    Flags s.run xs s.run.pc w := by
  have hcomm : ∀ x, x = w ↔ w = x := fun x => eq_comm
  obtain ⟨hp, hf, he, hr, ho⟩ := f
  unfold State.run
  cases hpc : s.pc with
  | release | rerunWrite | rerunStore => simp [hpc, Quiet] at hq
  | load | fetch | inFn | rerunLoadR | rerunIn =>
    rw [hpc] at hp hf he hr ho
    exact ⟨hp, hf, he, hr, ho⟩
  | loadR | rerunLoadW =>
    rw [hpc] at hp hf he hr ho
    dsimp only
    split <;> exact ⟨hp, hf, he, hr, ho⟩
  | start x | callFn x | stop x | clear x | rerunFail x | rerunStart x | rerunCall x | rerunStop x =>
    simp only [hpc, held, mayRerun, upcoming, some.injEq, reduceCtorEq, hcomm] at hp hf hr ho
    rcases eq_or_ne w x with rfl | hw
    · constructor <;> simp_all
    · constructor <;> simp_all
  | exchange x | rerunCas x =>
    simp only [hpc, held, mayRerun, upcoming, some.injEq, reduceCtorEq, hcomm] at hp hf hr ho
    dsimp only
    -- an item that is not noted for a rerun, or is queued again, owes nothing
    split <;> rcases eq_or_ne w x with rfl | hw <;> constructor <;> simp_all

namespace Inv

theorem flags (h : Inv s xs n) (w : ω) : Flags s xs s.pc w :=
  ⟨h.pending w, h.fresh w, h.exec w, h.rerun w, h.owed w⟩

theorem of_flags (hr : Rep s.fifo xs n) (h1 : s.fifo.itemSize = 1) (hn : xs.Nodup)
    (hl : s.pc.Located s.fifo xs n) (hf : ∀ w, Flags s xs s.pc w) : Inv s xs n :=
  ⟨hr, h1, hn, hl, fun w => (hf w).pending, fun w => (hf w).fresh, fun w => (hf w).exec,
    fun w => (hf w).rerun, fun w => (hf w).owed⟩

theorem length (h : Inv s xs n) : xs.length = n := by
  rw [h.rep.cells, h.one]
  exact mul_one n

theorem initial (h0 : s.Initial) : Inv s [] 0 := by
  obtain ⟨⟨buf, depth, hi⟩, hpc, hf⟩ := h0
  have hone : s.fifo.itemSize = 1 := by
    obtain ⟨-, hi⟩ := ite_none_left_eq_some.mp hi
    rw [← some.inj hi]
  refine .of_flags (.init hi) hone nodup_nil (by rw [hpc]; trivial) fun w => ?_
  constructor <;> simp [hf w, hpc]

theorem located_push (h : Inv s xs n) {h' : Spsc ω} {work : ω} (hr : h'.rPtr = s.fifo.rPtr)
    (hgap : match s.pc with | .rerunWrite _ _ | .rerunStore _ _ => False | _ => True) :
    s.pc.Located h' (xs ++ [work]) (n + 1) := by
  have hl := h.located
  cases hpc : s.pc <;> rw [hpc] at hl hgap
  case loadR w =>
    obtain ⟨k, hk, hw⟩ := hl
    exact ⟨k, by omega, by rw [hr]; exact hw⟩
  case fetch r => exact ⟨by rw [hr]; exact hl.1, succ_pos n⟩
  case release r x =>
    obtain ⟨he, l, hx⟩ := hl
    exact ⟨by rw [hr]; exact he, l ++ [work], by rw [hx]; rfl⟩
  case rerunLoadW x r => exact hl.trans hr.symm
  case rerunWrite | rerunStore => exact hgap.elim
  all_goals trivial

theorem writeData (h : Inv s xs n) (work : ω) :
    (n = s.fifo.size.toNat ∧ s.fifo.writeData work = (.full, s.fifo)) ∨
      (n < s.fifo.size.toNat ∧ s.fifo.writeData work = (.ok, s.fifo.put [work] 1) ∧
        Rep (s.fifo.put [work] 1) (xs ++ [work]) (n + 1)) := by
  rw [h.rep.writeData_eq h.one]
  by_cases hn : n = s.fifo.size.toNat
  · exact .inl ⟨hn, if_pos hn⟩
  have hlt : n < s.fifo.size.toNat := lt_of_le_of_ne h.rep.le hn
  refine .inr ⟨hlt, if_neg hn, h.rep.push hlt ?_⟩
  rw [h.one]
  rfl

theorem noneLost (h : Inv s xs n) : s.NoneLost where
  drained hpc he w := by
    have hn : n = 0 := by
      rw [h.rep.isEmpty_eq] at he
      exact of_decide_eq_true he
    have hxs : xs = [] := eq_nil_of_length_eq_zero (h.length.trans hn)
    by_contra ho
    rcases h.owed w (by simpa using ho) with hm | hm | hm
    · rw [hxs] at hm
      exact not_mem_nil hm
    · have hr := h.rerun w hm
      rw [hpc] at hr
      cases hr
    · rw [hpc] at hm
      cases hm
  once := by
    have hq : s.queued = xs := by
      have hfront := h.rep.front (le_refl n)
      unfold State.queued
      rw [Spsc.copyOut_eq, h.rep.count_toNat, hfront, ← h.rep.cells, take_length]
    rw [hq]
    exact h.nodup

/-! ### The consumer and the ring -/

theorem fetch (h : Inv s xs n) (hn : 0 < n) :
    ∃ l, xs = s.fifo.buf (s.fifo.rPtr &&& s.fifo.mask).toNat :: l := by
  have hread := h.rep.readData_eq h.one
  have hne : s.fifo.rPtr ≠ s.fifo.wPtr := by
    rw [ne_eq, h.rep.empty_iff]
    omega
  unfold Spsc.readData at hread
  rw [if_neg hne] at hread
  have htake := (mk.inj (mk.inj hread).2).1
  cases hx : xs with
  | nil =>
    have hlen := h.length
    rw [hx] at hlen
    simp at hlen
    omega
  | cons y l =>
    rw [hx] at htake
    exact ⟨l, by simpa using htake.symm⟩

variable {x : ω}

theorem release (h : Inv s xs n) {r : UInt16} (hpc : s.pc = .release r x) :
    Inv { s with fifo := { s.fifo with rPtr := r + 1 }, pc := .start x } (xs.drop 1) (n - 1) := by
  have hl := h.located
  rw [hpc] at hl
  obtain ⟨hr, l, hx⟩ := hl
  have hlen := h.length
  have hpop := h.rep.pop (k := 1) (by rw [hx] at hlen; simp at hlen; omega)
  have hone : 1 * s.fifo.itemSize.toNat = 1 := by
    rw [h.one]
    rfl
  rw [hone] at hpop
  have hnd := h.nodup
  rw [hx] at hnd
  obtain ⟨hxl, hnd⟩ := nodup_cons.mp hnd
  subst hx
  rw [hr]
  refine .of_flags hpop h.one hnd trivial fun w => ?_
  have hcomm : x = w ↔ w = x := eq_comm
  obtain ⟨hp, hf, he, hr, ho⟩ := h.flags w
  simp only [hpc, held, mayRerun, upcoming, mem_cons, reduceCtorEq] at hp hf hr ho
  -- the item is held now
  rcases eq_or_ne w x with rfl | hw
  · constructor <;> simp_all
  · constructor <;> simp_all

theorem rerunWrite (h : Inv s xs n) {w : UInt16} (hpc : s.pc = .rerunWrite x w) : Inv { s with
      fifo := { s.fifo with buf := copyTo s.fifo.buf (w &&& s.fifo.mask).toNat [x] }
      pc := .rerunStore x w } xs n := by
  have hl := h.located
  rw [hpc] at hl
  obtain ⟨hw, hlt⟩ := hl
  subst hw
  have hoff : (s.fifo.wPtr &&& s.fifo.mask).toNat = s.fifo.offset s.fifo.wPtr := by
    simp [Spsc.offset, h.one]
  have hd : [x].length = s.fifo.itemSize.toNat := by
    rw [h.one]
    rfl
  have hfill := h.rep.fill hd hlt
  rw [hoff]
  refine .of_flags hfill h.one h.nodup ⟨rfl, hlt, ?_⟩ fun v => ?_
  · change window (copyTo s.fifo.buf (s.fifo.offset s.fifo.wPtr) [x]) s.fifo.capacity
      (s.fifo.wPtr.toNat * s.fifo.itemSize.toNat) 1 = [x]
    rw [h.rep.copyTo_slot hd, h.rep.offset]
    exact @window_ringWrite_self _ _ _ _ [x] h.rep.capacity_pos h.rep.capacity_pos
  · obtain ⟨hp, hf, he, hr, ho⟩ := h.flags v
    rw [hpc] at hp hf he hr ho
    exact ⟨hp, hf, he, hr, ho⟩

theorem nodup_push (h : Inv s xs n) (hx : x ∉ xs) : (xs ++ [x]).Nodup :=
  nodup_append.mpr ⟨h.nodup, nodup_singleton x, fun _ ha _ hb hab =>
    hx (mem_singleton.mp hb ▸ hab ▸ ha)⟩

theorem rerunStore (h : Inv s xs n) {w : UInt16} (hpc : s.pc = .rerunStore x w) :
    Inv { s with fifo := { s.fifo with wPtr := w + 1 }, pc := .load } (xs ++ [x]) (n + 1) := by
  have hl := h.located
  rw [hpc] at hl
  obtain ⟨hw, hlt, hmem⟩ := hl
  have hx : x ∉ xs := h.fresh x (by rw [hpc]; rfl)
  have hd : [x].length = 1 * s.fifo.itemSize.toNat := by
    rw [h.one]
    rfl
  have hpub := h.rep.publish hlt hd hmem
  rw [hw]
  refine .of_flags hpub h.one (h.nodup_push hx) trivial fun v => ?_
  have hcomm : x = v ↔ v = x := eq_comm
  obtain ⟨hp, hf, he, hr, ho⟩ := h.flags v
  simp only [hpc, held, mayRerun, upcoming, some.injEq, reduceCtorEq, hcomm] at hp hf hr ho
  rcases eq_or_ne v x with rfl | hv
  · constructor <;> simp_all
  · constructor <;> simp_all

/-! ### Interrupts -/

variable [DecidableEq ω]

theorem submit (h : Inv s xs n) {work : ω} (hok : s.OutOfGaps (.submit work)) :
    ∃ xs' n', Inv (s.submit work) xs' n' := by
  obtain ⟨hclear, hwrite⟩ := hok
  unfold State.submit State.submitFromIsr
  cases hp : s.pending work with
  | true =>
    -- an item that does not run is still to be run
    have hdue : s.executing work = false →
        work ∈ xs ∨ s.rerun work = true ∨ s.pc.upcoming = some work := by
      intro he
      rcases (h.pending work).mp hp with hm | hh
      · exact .inl hm
      have hex : s.pc.exec ≠ some work := fun hx =>
        Bool.noConfusion (he.symm.trans ((h.exec work).mpr hx))
      rcases upcoming_of_held hh hex with hu | hc
      · exact .inr (.inr hu)
      · exact .inr (.inl (hclear hc))
    have hmay := fun hx => @mayRerun_of_exec _ s.pc work ((h.exec work).mp hx)
    cases he : s.executing work with
    | true =>
      -- the rerun flag carries the submit
      refine ⟨xs, n, .of_flags h.rep h.one h.nodup h.located fun w => ?_⟩
      obtain ⟨h1, h2, h3, h4, h5⟩ := h.flags w
      rcases eq_or_ne w work with rfl | hw
      · exact ⟨h1, h2, h3, fun _ => hmay he, fun _ => by simp⟩
      · constructor <;> simp_all
    | false =>
      refine ⟨xs, n, .of_flags h.rep h.one h.nodup h.located fun w => ?_⟩
      obtain ⟨h1, h2, h3, h4, h5⟩ := h.flags w
      rcases eq_or_ne w work with rfl | hw
      · exact ⟨h1, h2, h3, h4, fun _ => hdue he⟩
      · constructor <;> simp_all
  | false =>
    simp only [Bool.false_eq_true, if_false]
    rcases h.writeData work with ⟨-, he⟩ | ⟨hlt, he, hrep⟩
    · rw [he]
      exact ⟨xs, n, h⟩
    rw [he]
    have hnot : ¬ (work ∈ xs ∨ s.pc.held = some work) := by
      intro hm
      exact Bool.noConfusion (hp.symm.trans ((h.pending work).mpr hm))
    obtain ⟨hxs, hheld⟩ := not_or.mp hnot
    refine ⟨xs ++ [work], n + 1, .of_flags hrep h.one (h.nodup_push hxs) ?_ fun w => ?_⟩
    · refine h.located_push rfl ?_
      revert hwrite
      cases s.pc <;> simp [hp]
    · obtain ⟨h1, h2, h3, h4, h5⟩ := h.flags w
      rcases eq_or_ne w work with rfl | hw
      · exact ⟨by simp, fun hh => absurd hh hheld, h3, h4, fun _ => .inl (by simp)⟩
      · constructor <;> simp_all

/-! ### The consumer -/

theorem located_run (h : Inv s xs n) (hq : Quiet s.pc) : s.run.pc.Located s.fifo xs n := by
  have hl := h.located
  unfold State.run
  cases hpc : s.pc <;> rw [hpc] at hl hq
  case release | rerunWrite | rerunStore => exact hq.elim
  case load => exact ⟨n, le_refl n, h.rep.wPtr⟩
  case loadR w =>
    obtain ⟨k, hk, hw⟩ := hl
    dsimp only
    split
    · trivial
    rename_i hne
    refine ⟨rfl, Nat.pos_of_ne_zero fun h0 => ?_⟩
    have hk0 : k = 0 := by omega
    rw [hw, hk0] at hne
    exact hne (UInt16.add_zero _).symm
  case fetch r =>
    obtain ⟨hr, hn⟩ := hl
    subst hr
    exact ⟨rfl, h.fetch hn⟩
  case rerunLoadR => rfl
  case rerunLoadW x r =>
    dsimp only
    split
    · trivial
    rename_i hlt
    rw [show r = s.fifo.rPtr from hl] at hlt
    exact ⟨rfl, lt_of_le_of_ne h.rep.le fun he => hlt (h.rep.full_iff.mpr he)⟩
  case exchange | rerunCas =>
    dsimp only
    split <;> trivial
  all_goals trivial

theorem fifo_run (hq : Quiet s.pc) : s.run.fifo = s.fifo := by
  unfold State.run
  cases hpc : s.pc with
  | release | rerunWrite | rerunStore => simp [hpc, Quiet] at hq
  | loadR | rerunLoadW | exchange | rerunCas =>
    dsimp only
    split <;> rfl
  | _ => rfl

theorem run (h : Inv s xs n) : ∃ xs' n', Inv s.run xs' n' := by
  by_cases hq : Quiet s.pc
  · have hs := fifo_run hq
    exact ⟨xs, n, .of_flags (hs ▸ h.rep) (hs ▸ h.one) h.nodup (hs ▸ h.located_run hq)
      fun w => (h.flags w).run hq⟩
  unfold State.run
  cases hpc : s.pc with
  | release r x => exact ⟨_, _, h.release hpc⟩
  | rerunWrite x w => exact ⟨xs, n, h.rerunWrite hpc⟩
  | rerunStore x w => exact ⟨_, _, h.rerunStore hpc⟩
  | _ => simp [hpc, Quiet] at hq

end Inv

theorem none_lost [DecidableEq ω] {s : State ω}
    (hr : (State.system.restrict State.OutOfGaps).Reachable s) : s.NoneLost := by
  have hinv : ∃ xs n, Inv s xs n := by
    induction hr with
    | init h0 => exact ⟨_, _, .initial h0⟩
    | @step s s' l _ hs ih =>
      obtain ⟨xs, n, h⟩ := ih
      obtain ⟨hok, hs⟩ := hs
      cases l with
      | submit work =>
        cases hs
        exact h.submit hok
      | run =>
        cases hs
        exact h.run
  obtain ⟨xs, n, h⟩ := hinv
  exact h.noneLost

def twoCells : State Bool where
  fifo := ⟨fun _ => false, 2, 1, 1, 0, 0⟩
  pending _ := false
  executing _ := false
  rerun _ := false
  pc := .load
  owed _ := false

theorem initial_twoCells : twoCells.Initial := by
  refine ⟨⟨fun _ => false, 2, ?_⟩, rfl, fun _ => ⟨rfl, rfl, rfl, rfl⟩⟩
  have hcond : ¬ ((1 : UInt16) = 0 ∨ (2 : UInt16) = 0 ∨ (2 : UInt16) &&& (2 - 1) ≠ 0) := by decide
  unfold fifoInit fifoUniInit
  rw [if_neg hcond]
  rfl

/-- An item submitted while it runs is run again. -/
theorem none_lost_rerun :
    ∃ s : State Bool, (State.system.restrict State.OutOfGaps).Reachable s ∧ s.NoneLost ∧
      s.pc = .rerunStore true 1 := by
  obtain ⟨s, hr, hp⟩ := LTS.Reachable.of_execOk State.Initial State.next
    State.OutOfGaps twoCells
    [.submit true, .run, .run, .run, .run, .run, .run, .submit true, .run, .run, .run, .run, .run,
      .run, .run, .run]
    (fun s => s.pc = .rerunStore true 1) initial_twoCells (by decide +kernel)
  exact ⟨s, hr, none_lost hr, hp⟩

/-- A submit between the clearing of `executing` and of `pending` returns OK and is forgotten. -/
theorem submit_in_gap_lost : ∃ s : State Bool, State.system.Reachable s ∧ ¬ s.NoneLost := by
  obtain ⟨s, hr, hpc, he, ho⟩ := LTS.Reachable.of_exec State.Initial State.next
    twoCells
    [.submit true, .run, .run, .run, .run, .run, .run, .run, .run, .submit true, .run, .run]
    (fun s => s.pc = .load ∧ s.fifo.isEmpty = true ∧ s.owed true = true)
    initial_twoCells (by decide +kernel)
  refine ⟨s, hr, fun h => ?_⟩
  exact Bool.noConfusion (ho.symm.trans (h.drained hpc he true))

end MiniTree.Interrupt
