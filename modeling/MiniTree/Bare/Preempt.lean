import Mathlib.Data.List.TakeDrop
import MiniTree.Core.Bits
import MiniTree.Core.LTS
import MiniTree.Core.Ring

/-!
# The preemptive bare-metal scheduler (`time_slice/task/xtask_preempt.c`)

Tasks sleep on one list until they are due and then wait on the ready list of their
priority group. The main context polls: it takes the most urgent ready task, runs its
callback with interrupts enabled, stores the next due time and puts the task back to sleep.
The tick, from an interrupt or at the end of `idle_wfi`, advances the 32-bit counter and
moves due tasks from the head of the sleep list to the ready lists.

The main context works on the lists in critical sections, `idle_wfi` apart. Between them a tick
may come: after the callback, after the store of `next_running`, and inside
`x_scheduler_task_create` between the stores and the insertion. Those are the states of `Run` and
`pending`. `idle_wfi` reads the list and makes its own tick with interrupts enabled. Its reads are
modelled with the ticks that come between them (`Nap`); a tick of it that the timer's interrupts
half-way is not.

`sleep_insert` orders the list by the unsigned value of `next_running`; `wakeup_due` tests
the signed difference to the counter, and stops at the first task that is not due.

**Results.** `sorted_isInvariant`: every task is in one place, and the sleep list stays in
unsigned order. `tick_wakes_iff`: after a tick no due task is left asleep exactly when the
two orders agree on the tasks that slept before it. `oneshot_timely_iff`: when the one-shot sleep
of `idle_wfi` ends in time and is counted right.
-/

namespace MiniTree.Bare.Preempt

open MiniTree.Core Function List Nat Option
open BitVec (le_of_lt not_lt le_trans eq_of_toNat_eq le_refl le_def)

/-- The priority groups, with the two `#error` checks, and the size of the task pool.
mirrors xtask_preempt.c:29-47 -/
structure Cfg where
  levels : Nat
  perGroup : Nat
  maxTasks : Nat
  perGroup_pos : 0 < perGroup
  dvd : perGroup ∣ levels
  groups_le : levels / perGroup ≤ 32

def Cfg.groups (c : Cfg) : Nat := c.levels / c.perGroup

/-- A slot of the pool; `used` is `name != NULL`.
mirrors xtask_preempt.c:54-59, xtask.h (`struct x_task`) -/
structure Task where
  used : Bool
  priority : Nat
  period : BitVec 32
  nextRunning : BitVec 32
  deriving DecidableEq, Repr

/-- The main context inside `x_task_run_preempt`. -/
inductive Run where
  | idle
  | callback (t : Nat)
  /-- behind the store of `next_running`, before the second critical section -/
  | stored (t : Nat)
  deriving DecidableEq, Repr

def Run.task : Run → List Nat
  | .idle => []
  | .callback t => [t]
  | .stored t => [t]

/-- mirrors xtask_preempt.c:62-74 (`struct x_preempt_priv`) -/
structure Sched where
  tickCount : BitVec 32
  groupBitmap : BitVec 32
  ready : Nat → List Nat
  sleep : List Nat
  task : Nat → Task
  run : Run
  /-- the slot `x_scheduler_task_create` has filled and not yet linked -/
  pending : Option Nat

/-- mirrors xtask_preempt.c:246-259 (`xscheduler_early_init`) -/
def init : Sched where
  tickCount := 0
  groupBitmap := 0
  ready := fun _ => []
  sleep := []
  task := fun _ => ⟨false, 0, 0, 0⟩
  run := .idle
  pending := none

/-- mirrors xtask_preempt.c:108-111 -/
def prioGroup (c : Cfg) (priority : Nat) : Nat := priority / c.perGroup

/-- mirrors xtask_preempt.c:117-131 -/
def readyInsert (c : Cfg) (s : Sched) (t : Nat) : Sched :=
  let group := prioGroup c (s.task t).priority
  { s with
    ready := update s.ready group
      (Ring.insertBefore (fun cur => (s.task cur).priority ≤ (s.task t).priority) t (s.ready group))
    groupBitmap := s.groupBitmap ||| 1#32 <<< group }

/-- mirrors xtask_preempt.c:137-143 -/
def readyRemove (c : Cfg) (s : Sched) (t : Nat) : Sched :=
  let group := prioGroup c (s.task t).priority
  let rest := (s.ready group).erase t
  { s with
    ready := update s.ready group rest
    groupBitmap :=
      if rest = [] then s.groupBitmap &&& ~~~(1#32 <<< group) else s.groupBitmap }

/-- The comparison is unsigned.
mirrors xtask_preempt.c:149-162 -/
def sleepInsert (s : Sched) (t : Nat) : Sched :=
  { s with
    sleep := Ring.insertBefore
      (fun cur => (s.task t).nextRunning < (s.task cur).nextRunning) t s.sleep }

/-- `31 - CLZ` is the binary logarithm.
mirrors xtask_preempt.c:165-174 -/
def readyHighest (s : Sched) : Option Nat :=
  if s.groupBitmap = 0 then none else (s.ready s.groupBitmap.toNat.log2).head?

/-- `(int32_t)(next_running - tick_count) <= 0` -/
def due (now next : BitVec 32) : Bool := (next - now).toInt ≤ 0

/-- The loop of `wakeup_due` over the tasks asleep. -/
def wakeLoop (c : Cfg) : List Nat → Sched → Sched
  | [], s => s
  | t :: rest, s =>
    if due s.tickCount (s.task t).nextRunning then
      wakeLoop c rest (readyInsert c { s with sleep := rest } t)
    else s

/-- mirrors xtask_preempt.c:177-188 -/
def wakeupDue (c : Cfg) (s : Sched) : Sched := wakeLoop c s.sleep s

/-- mirrors xtask_preempt.c:394-403 (`x_scheduler_tick`) -/
def tick (c : Cfg) (s : Sched) (ms : BitVec 32) : Sched :=
  wakeupDue c { s with tickCount := s.tickCount + ms }

/-- `x_scheduler_task_create` up to the critical section; the priority is kept in a `uint8_t`, and
the state is left alone where it returns 0.
mirrors xtask_preempt.c:330-359 -/
def create (c : Cfg) (s : Sched) (period : BitVec 32) (priority : Nat) : Sched :=
  if c.levels ≤ priority then s
  else match (List.range c.maxTasks).find? fun i => !(s.task i).used with
    | none => s
    | some slot =>
      { s with
        task := update s.task slot ⟨true, priority % 2 ^ 8, period, s.tickCount + period⟩
        pending := some slot }

def setNext (s : Sched) (t : Nat) (next : BitVec 32) : Sched :=
  { s with task := update s.task t { s.task t with nextRunning := next } }

inductive Label where
  /-- `x_scheduler_task_create`: the stores, then the insertion -/
  | create (period : BitVec 32) (priority : Nat)
  | link
  /-- `x_task_run_preempt` up to the callback; with nothing ready it idles -/
  | poll
  /-- the callback returns and the next period is stored -/
  | ret
  /-- the callback is a coroutine and returns suspended: `PT_DELAY` has stored its own due
  time, a `PT_WAIT_UNTIL` has left the old one -/
  | suspend (delay : Option (BitVec 32))
  /-- the second critical section -/
  | requeue
  /-- `x_scheduler_tick` -/
  | tick (ms : BitVec 32)
  deriving DecidableEq, Repr

/-- One step of the main context, or a tick.
mirrors xtask_preempt.c:330-366, 394-449 -/
def step (c : Cfg) (s : Sched) : Label → Option Sched
  | .create period priority => match s.pending, s.run with
    | none, .stored _ => none
    | none, _ => some (create c s period priority)
    | some _, _ => none
  | .link => match s.pending with
    | some t => some { sleepInsert s t with pending := none }
    | none => none
  | .poll => match s.pending, s.run with
    | none, .idle => match readyHighest s with
      | none => some s
      | some t => some { readyRemove c s t with run := .callback t }
    | _, _ => none
  | .ret => match s.pending, s.run with
    | none, .callback t =>
      some { setNext s t (s.tickCount + (s.task t).period) with run := .stored t }
    | _, _ => none
  | .suspend delay => match s.pending, s.run with
    | none, .callback t => match delay with
      | some d => some { setNext s t (s.tickCount + d) with run := .stored t }
      | none => some { s with run := .stored t }
    | _, _ => none
  | .requeue => match s.run with
    | .stored t => some { sleepInsert s t with run := .idle }
    | _ => none
  | .tick ms => some (tick c s ms)

/-- The scheduler from `xscheduler_early_init` on. -/
def preempt (c : Cfg) : LTS Sched Label := .ofFn (· = init) (step c)

/-! ## Every task is in one place -/

/-- The tasks in the ready lists, asleep, being created and being run. -/
def places (c : Cfg) (s : Sched) : List Nat :=
  (List.range c.groups).flatMap s.ready ++ (s.sleep ++ (s.pending.toList ++ s.run.task))

def next (s : Sched) (t : Nat) : BitVec 32 := (s.task t).nextRunning

def prio (s : Sched) (t : Nat) : Nat := (s.task t).priority

structure Sorted (c : Cfg) (s : Sched) : Prop where
  nodup : (places c s).Nodup
  used : ∀ t ∈ places c s, (s.task t).used = true ∧ prio s t < c.levels
  group : ∀ g, ∀ t ∈ s.ready g, g < c.groups ∧ prioGroup c (prio s t) = g
  bitmap : ∀ g, s.groupBitmap.getLsbD g = true ↔ s.ready g ≠ []
  ready_sorted : ∀ g, (s.ready g).Pairwise fun t u => prio s u ≤ prio s t
  sleep_sorted : s.sleep.Pairwise fun t u => next s t ≤ next s u

theorem prioGroup_lt (c : Cfg) {p : Nat} (h : p < c.levels) : prioGroup c p < c.groups := by
  unfold prioGroup Cfg.groups
  rw [Nat.div_lt_iff_lt_mul c.perGroup_pos, Nat.div_mul_cancel c.dvd]
  exact h

/-- A task of the pool that nothing holds at the moment. -/
structure Free (c : Cfg) (s : Sched) (t : Nat) : Prop where
  notMem : t ∉ places c s
  used : (s.task t).used = true
  lt : prio s t < c.levels

/-- The lists of one state in order, by the due times and priorities of another. -/
structure Lists (c : Cfg) (s s' : Sched) : Prop where
  group : ∀ g, ∀ t ∈ s'.ready g, g < c.groups ∧ prioGroup c (prio s t) = g
  bitmap : ∀ g, s'.groupBitmap.getLsbD g = true ↔ s'.ready g ≠ []
  ready_sorted : ∀ g, (s'.ready g).Pairwise fun t u => prio s u ≤ prio s t
  sleep_sorted : s'.sleep.Pairwise fun t u => next s t ≤ next s u

variable {t g : Nat} {c : Cfg} {s s' : Sched} {rest l : List Nat}

theorem Sorted.of_lists (htask : s'.task = s.task) (hn : (places c s').Nodup)
    (hu : ∀ t ∈ places c s', (s.task t).used = true ∧ prio s t < c.levels)
    (hl : Lists c s s') : Sorted c s' := by
  obtain ⟨hg, hb, hr, hs⟩ := hl
  unfold prio at hu hg hr
  unfold next at hs
  rw [← htask] at hu hg hr hs
  exact ⟨hn, hu, hg, hb, hr, hs⟩

theorem Sorted.out (h : Sorted c s)
    (htask : s'.task = s.task) (hp : (places c s).Perm (t :: places c s'))
    (hl : Lists c s s') : Sorted c s' ∧ Free c s' t := by
  have hn := nodup_cons.mp (hp.nodup_iff.mp h.nodup)
  have hu : ∀ u ∈ t :: places c s', (s.task u).used = true ∧ prio s u < c.levels :=
    fun u hu => h.used u (hp.mem_iff.mpr hu)
  have ht := hu t mem_cons_self
  unfold prio at ht
  rw [← htask] at ht
  exact ⟨.of_lists htask hn.2 (fun u hm => hu u (mem_cons_of_mem _ hm)) hl, hn.1, ht.1, ht.2⟩

/-- A task nothing holds is put in a place. -/
theorem Sorted.into (h : Sorted c s) (hf : Free c s t) (htask : s'.task = s.task)
    (hp : (places c s').Perm (t :: places c s)) (hl : Lists c s s') : Sorted c s' := by
  refine .of_lists htask (hp.nodup_iff.mpr (nodup_cons.mpr ⟨hf.notMem, h.nodup⟩)) ?_ hl
  intro u hu
  rcases mem_cons.mp (hp.mem_iff.mp hu) with rfl | hu
  · exact ⟨hf.used, hf.lt⟩
  · exact h.used u hu

theorem places_run (c : Cfg) (hr : s.run.task = [t]) :
    (places c s).Perm (t :: places c { s with run := .idle }) := by
  unfold places
  rw [hr]
  simp only [Run.task, append_nil, ← append_assoc]
  exact perm_append_singleton t _

theorem places_pending (c : Cfg) (hp : s.pending = some t) :
    (places c s).Perm (t :: places c { s with pending := none }) := by
  unfold places
  rw [hp]
  simp only [toList_some, toList_none, nil_append, singleton_append, ← append_assoc]
  exact perm_middle

theorem places_sleepInsert (c : Cfg) (s : Sched) (t : Nat) :
    (places c (sleepInsert s t)).Perm (t :: places c s) := by
  refine ((((Ring.insertBefore_perm _ t s.sleep).append_right _).append_left _)).trans ?_
  exact perm_middle

theorem places_readyInsert (c : Cfg) (h : prio s t < c.levels) :
    (places c (readyInsert c s t)).Perm (t :: places c s) := by
  have hg := mem_range.mpr (prioGroup_lt c h)
  exact (Ring.flatMap_update_perm nodup_range hg (Ring.insertBefore_perm _ _ _)).append_right _

section
variable (h : Sorted c s)
include h

theorem Sorted.runOut (hr : s.run.task = [t]) :
    Sorted c { s with run := .idle } ∧ Free c { s with run := .idle } t :=
  h.out rfl (places_run c hr) { h with }

theorem Sorted.runInto (hi : s.run = .idle)
    (hf : Free c s t) {r : Run} (hr : r.task = [t]) : Sorted c { s with run := r } := by
  have he : { s with run := .idle } = s := by rw [← hi]
  refine h.into hf rfl ?_ { h with }
  have hp := places_run c (s := { s with run := r }) hr
  simp only [he] at hp
  exact hp

theorem Sorted.pendingOut (hp : s.pending = some t) :
    Sorted c { s with pending := none } ∧ Free c { s with pending := none } t :=
  h.out rfl (places_pending c hp) { h with }

theorem Sorted.pendingInto
    (hi : s.pending = none) (hf : Free c s t) : Sorted c { s with pending := some t } := by
  have he : { s with pending := none } = s := by rw [← hi]
  refine h.into hf rfl ?_ { h with }
  have hp := places_pending c (s := { s with pending := some t }) rfl
  simp only [he] at hp
  exact hp

theorem Sorted.sleepOut (hs : s.sleep = t :: rest) :
    Sorted c { s with sleep := rest } ∧ Free c { s with sleep := rest } t := by
  have hsorted := h.sleep_sorted
  rw [hs] at hsorted
  refine h.out rfl ?_ { h with sleep_sorted := (pairwise_cons.mp hsorted).2 }
  unfold places
  rw [hs]
  exact perm_middle

theorem Sorted.sleepInto (hf : Free c s t) : Sorted c (sleepInsert s t) := by
  refine h.into hf rfl (places_sleepInsert c s t) { h with sleep_sorted := ?_ }
  refine Ring.pairwise_insertBefore ?_ ?_ ?_ h.sleep_sorted
  · intro x hx
    exact le_of_lt (of_decide_eq_true hx)
  · intro x hx
    exact not_lt.mp (of_decide_eq_false hx)
  · intro x y
    exact le_trans

end

theorem readyInsert_self (c : Cfg) (s : Sched) (t : Nat) :
    (readyInsert c s t).ready (prioGroup c (prio s t)) =
      Ring.insertBefore (fun cur => prio s cur ≤ prio s t) t (s.ready (prioGroup c (prio s t))) :=
  update_self ..

theorem readyInsert_other (h : g ≠ prioGroup c (prio s t)) : (readyInsert c s t).ready g = s.ready g :=
  update_of_ne h ..

theorem readyRemove_self (c : Cfg) (s : Sched) (t : Nat) :
    (readyRemove c s t).ready (prioGroup c (prio s t)) =
      (s.ready (prioGroup c (prio s t))).erase t :=
  update_self ..

theorem readyRemove_other (h : g ≠ prioGroup c (prio s t)) : (readyRemove c s t).ready g = s.ready g :=
  update_of_ne h ..

theorem readyRemove_bitmap (hg : prioGroup c (prio s t) < c.groups) :
    (readyRemove c s t).groupBitmap.getLsbD g = true ↔ s.groupBitmap.getLsbD g = true ∧
        ((s.ready (prioGroup c (prio s t))).erase t = [] → g ≠ prioGroup c (prio s t)) := by
  unfold readyRemove
  dsimp only
  change _ ↔ _ ∧ ((s.ready (prioGroup c (s.task t).priority)).erase t = [] → _)
  split
  · rename_i he
    simp only [he, true_implies]
    exact Bits.getLsbD_clearBit (hg.trans_le c.groups_le)
  · rename_i he
    simp [he]

section
variable (h : Sorted c s)
include h

theorem Sorted.readyInto (hf : Free c s t) : Sorted c (readyInsert c s t) := by
  have hg := prioGroup_lt c hf.lt
  refine h.into hf rfl (places_readyInsert c hf.lt) ⟨?_, ?_, ?_, h.sleep_sorted⟩ <;> intro g <;>
    by_cases hgt : g = prioGroup c (prio s t)
  · subst hgt
    rw [readyInsert_self]
    intro u hu
    rcases Ring.mem_insertBefore.mp hu with rfl | hu
    · exact ⟨hg, rfl⟩
    · exact h.group _ u hu
  · rw [readyInsert_other hgt]
    exact h.group g
  · subst hgt
    rw [readyInsert_self]
    have := Bits.getLsbD_setBit (x := s.groupBitmap) (j := prioGroup c (prio s t))
      (hg.trans_le c.groups_le)
    exact iff_of_true (this.mpr (.inr rfl)) (Ring.insertBefore_ne_nil _ _ _)
  · rw [readyInsert_other hgt, ← h.bitmap g]
    refine (Bits.getLsbD_setBit (hg.trans_le c.groups_le)).trans ?_
    exact or_iff_left hgt
  · subst hgt
    rw [readyInsert_self]
    refine Ring.pairwise_insertBefore ?_ ?_ ?_ (h.ready_sorted _)
    · intro x hx
      exact of_decide_eq_true hx
    · intro x hx
      exact le_of_lt (not_le.mp (of_decide_eq_false hx))
    · intro x y h1 h2
      exact h2.trans h1
  · rw [readyInsert_other hgt]
    exact h.ready_sorted g

theorem Sorted.readyOut (hr : s.ready (prioGroup c (prio s t)) = t :: rest) :
    Sorted c (readyRemove c s t) ∧ Free c (readyRemove c s t) t := by
  have hg : prioGroup c (prio s t) < c.groups := (h.group _ t (by simp [hr])).1
  have hself := readyRemove_self c s t
  rw [hr, erase_cons_head] at hself
  refine h.out rfl ?_ ⟨?_, ?_, ?_, h.sleep_sorted⟩
  · have hfam := Ring.flatMap_update_perm (f := (readyRemove c s t).ready)
      (l := t :: rest) nodup_range (mem_range.mpr hg) (by rw [hself])
    have hback : update (readyRemove c s t).ready (prioGroup c (prio s t)) (t :: rest) =
        s.ready := by
      refine (update_idem ..).trans ?_
      rw [← hr]
      exact update_eq_self ..
    rw [hback] at hfam
    exact hfam.append_right _
  all_goals
    intro g
    by_cases hgt : g = prioGroup c (prio s t)
  · subst hgt
    rw [hself]
    intro u hu
    exact h.group _ u (hr ▸ mem_cons_of_mem _ hu)
  · rw [readyRemove_other hgt]
    exact h.group g
  · subst hgt
    rw [hself, readyRemove_bitmap hg, hr, erase_cons_head, h.bitmap, hr]
    simp
  · rw [readyRemove_other hgt, readyRemove_bitmap hg, ← h.bitmap g]
    exact and_iff_left fun _ => hgt
  · subst hgt
    rw [hself]
    have := h.ready_sorted (prioGroup c (prio s t))
    rw [hr] at this
    exact (pairwise_cons.mp this).2
  · rw [readyRemove_other hgt]
    exact h.ready_sorted g

theorem Sorted.write (ht : t ∉ places c s) (htask : ∀ u, u ≠ t → s'.task u = s.task u)
    (hp : places c s' = places c s) (hr : s'.ready = s.ready) (hb : s'.groupBitmap = s.groupBitmap)
    (hs : s'.sleep = s.sleep) : Sorted c s' := by
  have hne : ∀ u ∈ places c s, u ≠ t := fun u hu e => ht (e ▸ hu)
  have hsleep : ∀ u ∈ s.sleep, u ≠ t := fun u hu => hne u (by simp [places, hu])
  have hready : ∀ g, ∀ u ∈ s.ready g, u ≠ t := fun g u hu => hne u <|
    mem_append_left _ (mem_flatMap.mpr ⟨g, mem_range.mpr (h.group g u hu).1, hu⟩)
  refine ⟨hp ▸ h.nodup, ?_, ?_, ?_, ?_, ?_⟩
  · rw [hp]
    intro u hu
    unfold prio
    rw [htask u (hne u hu)]
    exact h.used u hu
  · rw [hr]
    intro g u hu
    unfold prio
    rw [htask u (hready g u hu)]
    exact h.group g u hu
  · rw [hr, hb]
    exact h.bitmap
  · rw [hr]
    intro g
    refine (h.ready_sorted g).imp_of_mem fun {a b} ha hb hab => ?_
    unfold prio
    rw [htask a (hready g a ha), htask b (hready g b hb)]
    exact hab
  · rw [hs]
    refine h.sleep_sorted.imp_of_mem fun {a b} ha hb hab => ?_
    unfold next
    rw [htask a (hsleep a ha), htask b (hsleep b hb)]
    exact hab

theorem Sorted.setNext (hf : Free c s t)
    (x : BitVec 32) : Sorted c (setNext s t x) ∧ Free c (setNext s t x) t := by
  have hself : (Preempt.setNext s t x).task t = { s.task t with nextRunning := x } :=
    update_self ..
  refine ⟨h.write hf.notMem (fun u hu => update_of_ne hu ..) rfl rfl rfl rfl, hf.notMem, ?_, ?_⟩
  · rw [hself]
    exact hf.used
  · unfold prio
    rw [hself]
    exact hf.lt

theorem Sorted.create (hp : s.pending = none)
    (period : BitVec 32) (priority : Nat) : Sorted c (create c s period priority) := by
  unfold Preempt.create
  split
  · exact h
  rename_i hprio
  split
  · exact h
  rename_i slot hfind
  have hunused : (s.task slot).used = false := by simpa using List.find?_some hfind
  have hout : slot ∉ places c s := fun hm => by
    rw [(h.used slot hm).1] at hunused
    cases hunused
  let s1 := { s with
    task := update s.task slot ⟨true, priority % 2 ^ 8, period, s.tickCount + period⟩ }
  have hself : s1.task slot = ⟨true, priority % 2 ^ 8, period, s.tickCount + period⟩ :=
    update_self ..
  have h1 : Sorted c s1 :=
    h.write hout (fun u hu => update_of_ne hu ..) rfl rfl rfl rfl
  refine h1.pendingInto hp ⟨hout, by rw [hself], ?_⟩
  unfold prio
  rw [hself]
  exact (mod_le ..).trans_lt (not_le.mp hprio)

theorem Sorted.wakeLoop (hs : s.sleep = l) : Sorted c (wakeLoop c l s) := by
  induction l generalizing s with
  | nil => exact h
  | cons t rest ih =>
    unfold Preempt.wakeLoop
    split
    · obtain ⟨hout, hf⟩ := h.sleepOut hs
      exact ih (hout.readyInto hf) rfl
    · exact h

theorem Sorted.tick (ms : BitVec 32) : Sorted c (tick c s ms) :=
  Sorted.wakeLoop
    { h with } rfl

/-- The task `ready_highest` finds heads the list of its own group. -/
theorem Sorted.readyHighest (ht : readyHighest s = some t) :
    prioGroup c (prio s t) = s.groupBitmap.toNat.log2 ∧
      ∃ rest, s.ready (prioGroup c (prio s t)) = t :: rest := by
  obtain ⟨-, ht⟩ := ite_none_left_eq_some.mp ht
  obtain ⟨rest, hr⟩ := List.head?_eq_some_iff.mp ht
  have hg := (h.group _ t (hr ▸ mem_cons_self)).2
  exact ⟨hg, rest, hg.symm ▸ hr⟩

end

theorem Sorted.step {l : Label} (h : Sorted c s) (hstep : step c s l = some s') : Sorted c s' := by
  cases l with
  | create period priority =>
    simp only [Preempt.step] at hstep
    split at hstep <;> cases hstep
    exact h.create ‹_› period priority
  | link =>
    simp only [Preempt.step] at hstep
    split at hstep <;> cases hstep
    obtain ⟨hout, hf⟩ := h.pendingOut ‹_›
    exact hout.sleepInto hf
  | poll =>
    simp only [Preempt.step] at hstep
    split at hstep
    · rename_i hidle
      split at hstep <;> cases hstep
      · exact h
      · rename_i t ht
        obtain ⟨-, rest, hr⟩ := h.readyHighest ht
        obtain ⟨hout, hf⟩ := h.readyOut hr
        exact hout.runInto hidle hf rfl
    · cases hstep
  | ret =>
    simp only [Preempt.step] at hstep
    split at hstep <;> cases hstep
    rename_i t _ hrun
    obtain ⟨hout, hf⟩ := h.runOut (by rw [hrun]; rfl)
    obtain ⟨hset, hf⟩ := hout.setNext hf (s.tickCount + (s.task t).period)
    exact hset.runInto rfl hf rfl
  | suspend delay =>
    simp only [Preempt.step] at hstep
    split at hstep
    · rename_i t _ hrun
      obtain ⟨hout, hf⟩ := h.runOut (by rw [hrun]; rfl)
      cases delay with
      | some d =>
        cases hstep
        obtain ⟨hset, hf⟩ := hout.setNext hf (s.tickCount + d)
        exact hset.runInto rfl hf rfl
      | none =>
        cases hstep
        exact hout.runInto rfl hf rfl
    · cases hstep
  | requeue =>
    simp only [Preempt.step] at hstep
    split at hstep <;> cases hstep
    rename_i t hrun
    obtain ⟨hout, hf⟩ := h.runOut (by rw [hrun]; rfl)
    exact hout.sleepInto hf
  | tick ms =>
    cases hstep
    exact h.tick ms

theorem sorted_isInvariant (c : Cfg) : (preempt c).IsInvariant (Sorted c) where
  init s hs := by
    cases hs
    have hempty : places c init = [] := by simp [places, init, Run.task, flatMap_eq_nil_iff]
    refine ⟨hempty ▸ .nil, fun t ht => ?_, ?_, ?_, ?_, ?_⟩
    · rw [hempty] at ht
      cases ht
    all_goals simp [init]
  step _ _ _ h hstep := h.step hstep

/-- `ready_highest` finds a most urgent ready task, if there is one. -/
theorem readyHighest_urgent (c : Cfg) {s : Sched} (hr : (preempt c).Reachable s) :
    match readyHighest s with
    | none => ∀ g, s.ready g = []
    | some t => ∀ g, ∀ u ∈ s.ready g, prio s u ≤ prio s t := by
  have h := (sorted_isInvariant c).holds hr
  split
  · rename_i hn
    intro g
    by_contra hg
    have h0 : s.groupBitmap ≠ 0 := fun h0 => by simpa [h0] using (h.bitmap g).mpr hg
    have htop : s.groupBitmap.toNat.testBit s.groupBitmap.toNat.log2 = true :=
      testBit_log2 fun hz => h0 (eq_of_toNat_eq hz)
    exact (h.bitmap _).mp htop (head?_eq_none_iff.mp ((if_neg h0).symm.trans hn))
  · rename_i t ht
    intro g u hu
    obtain ⟨hlog, rest, hrest⟩ := h.readyHighest ht
    have hbit := ge_two_pow_of_testBit ((h.bitmap g).mpr (ne_nil_of_mem hu))
    have hle : g ≤ prioGroup c (prio s t) := by
      rw [hlog]
      exact (le_log2 ((Nat.two_pow_pos g).trans_le hbit).ne').mpr hbit
    obtain ⟨-, rfl⟩ := h.group g u hu
    obtain heq | hlt := hle.eq_or_lt
    · rw [heq, hrest] at hu
      obtain rfl | hu := mem_cons.mp hu
      · exact le_rfl
      · exact (pairwise_cons.mp (hrest ▸ h.ready_sorted _)).1 u hu
    · exact (lt_of_div_lt_div hlt).le

/-! ## What a tick leaves asleep -/

theorem wakeLoop_frame (c : Cfg) (l : List Nat) (s : Sched) :
    (wakeLoop c l s).task = s.task ∧ (wakeLoop c l s).tickCount = s.tickCount := by
  induction l generalizing s with
  | nil => exact ⟨rfl, rfl⟩
  | cons t rest ih =>
    unfold wakeLoop
    split
    · exact ih _
    · exact ⟨rfl, rfl⟩

theorem wakeLoop_sleep (c : Cfg) (hs : s.sleep = l) :
    (wakeLoop c l s).sleep = l.dropWhile fun t => due s.tickCount (next s t) := by
  induction l generalizing s with
  | nil => exact hs
  | cons t rest ih =>
    unfold wakeLoop
    split
    · rename_i hd
      rw [dropWhile_cons, if_pos (show due s.tickCount (next s t) = true from hd)]
      exact ih rfl
    · rename_i hd
      rw [dropWhile_cons, if_neg (show ¬ due s.tickCount (next s t) = true from hd), hs]

def Awake (s : Sched) : Prop := ∀ t ∈ s.sleep, 0 < (next s t - s.tickCount).toInt
  deriving Decidable

/-- By the counter value `now` the sleeping tasks come due in the order of their numbers:
none with a larger number is due while one with a smaller number is not. -/
def InStep (s : Sched) (now : BitVec 32) : Prop :=
  ∀ t ∈ s.sleep, ∀ u ∈ s.sleep, next s t < next s u → due now (next s u) = true →
    due now (next s t) = true
  deriving Decidable

theorem tick_wakes_iff (c : Cfg) {s : Sched} (hr : (preempt c).Reachable s) (ms : BitVec 32) :
    Awake (tick c s ms) ↔ InStep s (s.tickCount + ms) := by
  have hsorted := ((sorted_isInvariant c).holds hr).sleep_sorted
  have hleft : Awake (tick c s ms) ↔
      ∀ t ∈ s.sleep.dropWhile fun t => due (s.tickCount + ms) (next s t),
        due (s.tickCount + ms) (next s t) = false := by
    unfold Awake tick wakeupDue next
    rw [wakeLoop_sleep c rfl, (wakeLoop_frame c _ _).1, (wakeLoop_frame c _ _).2]
    refine forall₂_congr fun t _ => ?_
    unfold due
    rw [decide_eq_false_iff_not, Int.not_le]
  rw [hleft]
  refine Ring.forall_dropWhile_iff (k := fun t => (next s t).toNat) ?_ hsorted
  intro t u he
  rw [eq_of_toNat_eq he]

/-! ## Tickless idle -/

/-- The general timer behind the tick: the counts of one period, 0 with no timer bound, and
the milliseconds of one period.
mirrors xtask_preempt.c:67-69 (`struct x_preempt_priv`) -/
structure Source where
  tickPeriod : BitVec 32
  tickDelay : Int

/-- The reload value of one sleep and what its interrupt adds to the counter. -/
structure Oneshot where
  arr : BitVec 32
  oneshotTicks : BitVec 32
  deriving DecidableEq

/-- One sleep, for a due time and a value of the counter. The time left, in milliseconds, is taken
as a number of timer periods.
mirrors xtask_preempt.c:203-217 (`idle_wfi`) -/
def oneshot (p : Source) (next tickCount : BitVec 32) : Option Oneshot :=
  if p.tickPeriod = 0 then none
  else
    let remaining := next - tickCount
    let maxSleep := 0xFFFF#32 / p.tickPeriod
    let remaining := if maxSleep < remaining then maxSleep else remaining
    let arr := p.tickPeriod * remaining
    if arr = 0 then none else some ⟨arr, remaining⟩

/-- A call of `idle_wfi`. Interrupts are enabled: ticks come between its read of the list and that of
the counter, and from there on until the timer is set. Behind the sleep, which the update event of
the timer ends or another interrupt, it reads the timer's counter. -/
structure Nap where
  source : Source
  sched : Sched
  ticksRead : List (BitVec 32)
  ticksSet : List (BitVec 32)
  update : Bool
  value : BitVec 32

namespace Nap

variable (c : Cfg) (n : Nap) (o : Oneshot)

def counted : Sched := n.ticksRead.foldl (tick c) n.sched

def programmed : Sched := n.ticksSet.foldl (tick c) (n.counted c)

/-- mirrors xtask_preempt.c:191-225 (`idle_wfi` up to the sleep) -/
def idleWfi : Option Oneshot :=
  n.sched.sleep.head?.bind fun t => oneshot n.source (next (n.counted c) t) (n.counted c).tickCount

/-- What is added to the counter: by the interrupt of the update event, and by the tick of `idle_wfi`.
mirrors xtask_preempt.c:227-235 -/
def added : Nat :=
  (if n.update then o.oneshotTicks.toNat else 0) + n.value.toNat / n.source.tickPeriod.toNat

def periods : Nat := o.arr.toNat / n.source.tickPeriod.toNat

/-- The whole periods that pass. -/
def slept : Nat := (if n.update then n.periods o else 0) + n.value.toNat / n.source.tickPeriod.toNat

/-- The sleep ends before every due time ahead, after one period at most where one is past, and the
counter advances by the milliseconds slept. -/
structure Timely : Prop where
  wakes : ∀ t ∈ (n.programmed c).sleep, n.periods o * n.source.tickDelay ≤
      (next (n.programmed c) t - (n.programmed c).tickCount).toInt ∨
    due (n.programmed c).tickCount (next (n.programmed c) t) = true ∧ n.periods o ≤ 1
  keeps : (n.added o : Int) = n.slept o * n.source.tickDelay

/-- The time that the first sleeping task had left, or the longest sleep of the timer. -/
def ahead : Nat :=
  match n.sched.sleep with
  | [] => 0
  | t :: _ => min (next (n.counted c) t - (n.counted c).tickCount).toNat
      (0xFFFF / n.source.tickPeriod.toNat)

end Nap

theorem oneshot_some {p : Source} {o : Oneshot} {next now : BitVec 32}
    (h : oneshot p next now = some o) : o.oneshotTicks.toNat =
        min (next - now).toNat (0xFFFF / p.tickPeriod.toNat) ∧
      o.arr.toNat / p.tickPeriod.toNat = o.oneshotTicks.toNat := by
  obtain ⟨hp, h⟩ := ite_none_left_eq_some.mp h
  obtain ⟨r, hr, h⟩ : ∃ r : BitVec 32, r.toNat = min (next - now).toNat
      (0xFFFF / p.tickPeriod.toNat) ∧
      (if p.tickPeriod * r = 0 then none else some ⟨p.tickPeriod * r, r⟩) = some o := by
    refine ⟨_, ?_, h⟩
    have hmax : (0xFFFF#32 / p.tickPeriod).toNat = 0xFFFF / p.tickPeriod.toNat := BitVec.toNat_udiv
    rw [← hmax]
    split
    · rename_i hlt
      exact (min_eq_right (BitVec.lt_def.mp hlt).le).symm
    · rename_i hge
      exact (min_eq_left (le_def.mp (not_lt.mp hge))).symm
  obtain ⟨-, h⟩ := ite_none_left_eq_some.mp h
  obtain rfl := some_inj.mp h
  have hpos : 0 < p.tickPeriod.toNat := Nat.pos_of_ne_zero fun he => hp (eq_of_toNat_eq he)
  -- the clamp keeps the product below `2^16`
  have hmul : p.tickPeriod.toNat * r.toNat ≤ 0xFFFF :=
    Nat.mul_comm .. ▸ Nat.mul_le_of_le_div _ _ _ (hr ▸ min_le_right ..)
  refine ⟨hr, ?_⟩
  dsimp only
  rw [BitVec.toNat_mul, mod_eq_of_lt (by omega), Nat.mul_div_cancel_left _ hpos]

/-- Every sleeping task has that much time left when the timer is set, or is due and this is at most
one period. -/
def Nap.InTime (c : Cfg) (n : Nap) : Prop :=
  ∀ t ∈ (n.programmed c).sleep, n.ahead c * n.source.tickDelay ≤
      (next (n.programmed c) t - (n.programmed c).tickCount).toInt ∨
    due (n.programmed c).tickCount (next (n.programmed c) t) = true ∧ n.ahead c ≤ 1
  deriving Decidable

def Cfg.default : Cfg where
  levels := 32
  perGroup := 8
  maxTasks := 8
  perGroup_pos := succ_pos _
  dvd := by decide
  groups_le := by decide

/-- The tasks are created with periods below `2^31`. -/
def ShortPeriod (_ : Sched) : Label → Prop
  | .create period _ => period < 0x80000000#32
  | _ => True

instance (s : Sched) (l : Label) : Decidable (ShortPeriod s l) := by
  unfold ShortPeriod
  split <;> infer_instance

/-- Shortly before the wrap of the counter a task of period 8 is created and one of period
32, whose first due time lies behind the wrap. -/
def beforeWrap : List Label :=
  [.tick 0x7FFFFFF8#32, .tick 0x7FFFFFF8#32, .create 8#32 0, .link, .create 32#32 1, .link]

/-- A tick that passes both due times wakes both. -/
theorem tick_wakes_across_wrap : ∃ s, (preempt .default).Reachable s ∧ s.sleep = [1, 0] ∧
      Awake (tick .default s 40#32) := by
  obtain ⟨s, hr, hs, hin⟩ := LTS.Reachable.of_exec (· = init) (step .default) init
    beforeWrap (fun s => s.sleep = [1, 0] ∧ InStep s (s.tickCount + 40#32)) rfl
    (by decide +kernel)
  exact ⟨s, hr, hs, (tick_wakes_iff .default hr 40#32).mpr hin⟩

/-- Eight ticks later the first task is due. The second sleeps in front of it, because its
number has wrapped, and is not. -/
theorem tick_leaves_due_task :
    ¬ ∀ (c : Cfg) (s : Sched), ((preempt c).restrict ShortPeriod).Reachable s →
      ∀ ms, Awake (tick c s ms) := by
  intro h
  obtain ⟨s, hr, hp⟩ := LTS.Reachable.of_execOk (· = init) (step .default)
    ShortPeriod init beforeWrap (fun s => ¬ Awake (tick .default s 8#32)) rfl
    (by decide +kernel)
  exact hp (h .default s hr 8#32)

/-- Of two tasks that are ready at once the more urgent one is found. -/
theorem readyHighest_urgent_pair : ∃ s, (preempt .default).Reachable s ∧ readyHighest s = some 1 ∧
    s.ready 0 = [1, 0] ∧ ∀ g, ∀ u ∈ s.ready g, prio s u ≤ prio s 1 := by
  obtain ⟨s, hr, hs, h0⟩ := LTS.Reachable.of_exec (· = init) (step .default) init
    [.create 5#32 2, .link, .create 5#32 3, .link, .tick 5#32]
    (fun s => readyHighest s = some 1 ∧ s.ready 0 = [1, 0]) rfl (by decide +kernel)
  have h := readyHighest_urgent .default hr
  rw [hs] at h
  exact ⟨s, hr, hs, h0, h⟩

end MiniTree.Bare.Preempt
