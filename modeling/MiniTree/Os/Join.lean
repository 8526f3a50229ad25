import MiniTree.Core.LTS
import MiniTree.Os.Mutex

/-!
# Joining a thread (`mini_os_thread_join`)

One target thread, the joins that are made on it one after the other, its exit and the idle thread's
reaper. A step is one critical section. The join spans three of its own: the first looks at the target,
the second publishes the join semaphore and pins the corpse, the third collects the value and takes the
pin away. In between it creates the semaphore and takes it.
Sources: `lib/mini-os/src`, `lib/mini-os/inc`.

The reaper runs in the idle thread, so it runs while the joiner is parked, and between the joiner's
critical sections if the joiner has the idle thread's priority or is not ready there: SysTick
throttles a DEADLINE thread that has used its budget, and any thread can be suspended by another.

**Results.** `Prios.correct_iff`: joins are correct exactly when every joiner is more urgent than the
idle thread and stays ready between its sections. `join_fails_at_idle_priority`: the target exits and
is freed between the first and the second critical section of a join, which then writes to the freed
TCB.
-/

namespace MiniTree.Os

open MiniTree.Core Option Nat List Function

/-- A thread that joins. `pauses` says that it can stop being ready between two critical sections:
its policy is DEADLINE, or another thread suspends it. -/
structure JoinThread where
  priority : Nat
  pauses : Bool
  deriving DecidableEq, Repr

/-- The threads that join; a smaller priority is more urgent. -/
structure Prios where
  idle : Nat
  joiners : List JoinThread
  le_idle : ∀ c ∈ joiners, c.priority ≤ idle

/-- More urgent than the idle thread, and always ready. -/
def JoinThread.Urgent (p : Prios) (c : JoinThread) : Prop := c.priority ≠ p.idle ∧ c.pauses = false
  deriving Decidable

/-- The caller of a join and its argument. -/
structure Joiner where
  caller : JoinThread
  timeout : BitVec 32
  deriving DecidableEq, Repr

/-- mirrors thread.h:122-125 -/
structure JoinTcb where
  isDetach : Bool
  isTerminated : Bool
  exitRetval : Nat
  joinWaitSem : Option Nat
  deriving DecidableEq, Repr

/-- A binary semaphore; at most one thread waits on it. -/
structure JoinSem where
  obj : Obj
  count : Nat
  waiting : Bool
  freed : Bool
  deriving DecidableEq, Repr

/-- Where the join stands between two critical sections. -/
inductive JoinCall where
  | none
  /-- the target was alive -/
  | create (j : Joiner) (createSem : Bool)
  /-- before the semaphore is published -/
  | publish (j : Joiner) (fresh : Option Nat)
  /-- pinned, before a superfluous semaphore is deleted -/
  | discard (j : Joiner) (stale waitSem : Option Nat) (wasDetach terminated : Bool)
  /-- before `mini_os_obj_acquire` of `mini_os_semaphore_take` -/
  | take (j : Joiner) (waitSem : Option Nat) (wasDetach : Bool)
  /-- before the take's critical section -/
  | test (j : Joiner) (waitSem : Nat) (wasDetach : Bool)
  | parked (j : Joiner) (waitSem : Nat) (wasDetach : Bool)
  /-- before `mini_os_obj_release` -/
  | release (j : Joiner) (waitSem : Nat) (wasDetach : Bool) (ret : Err)
  /-- before the last critical section -/
  | collect (j : Joiner) (wasDetach : Bool) (ret : Err)
  deriving DecidableEq, Repr

/-- The thread that is in the join. -/
def JoinCall.joiner : JoinCall → Option Joiner
  | .none => Option.none
  | .create j _ | .publish j _ | .discard j .. | .take j .. | .test j .. | .parked j .. | .release j ..
  | .collect j .. => some j

inductive JoinResult where
  | ok (retval : Nat)
  | nomem
  | err (e : Err)
  deriving DecidableEq, Repr

/-- `linked` says that the target is on the corpse queue. `exited` is the value it passed to
`mini_os_thread_exit`, `stale` records a section of a join on the freed TCB, `results` what the joins
returned. -/
structure JoinSys where
  tcb : JoinTcb
  linked : Bool
  frees : Nat
  sem : Nat → JoinSem
  nSem : Nat
  call : JoinCall
  exited : Option Nat
  stale : Bool
  results : List JoinResult

namespace JoinSys

/-- mirrors thread.c:136-140 -/
def create : JoinSys where
  tcb := ⟨true, false, 0, none⟩
  linked := false
  frees := 0
  sem := fun _ => ⟨objInit true, 0, false, true⟩
  nSem := 0
  call := .none
  exited := none
  stale := false
  results := []

/-! ## The join semaphore -/

def modSem (s : JoinSys) (i : Nat) (f : JoinSem → JoinSem) : JoinSys :=
  { s with sem := update s.sem i (f (s.sem i)) }

/-- mirrors semaphore.c:102-114 (`mini_os_semaphore_create`): a binary semaphore
without its unit -/
def semaphoreCreate (s : JoinSys) : JoinSys :=
  { s.modSem s.nSem fun _ => ⟨objInit true, 0, false, false⟩ with nSem := s.nSem + 1 }

/-- mirrors semaphore.c:213-249 (`mini_os_semaphore_delete_common`) without kill -/
def semaphoreDelete (x : JoinSem) : JoinSem :=
  if 1 < x.obj.ref ∨ x.waiting then x
  else
    let o := { objDrop x.obj with destroy := true }
    if 0 < o.ref then { x with obj := o } else { x with obj := o, freed := true }

/-- mirrors obj.h:187-199 (`mini_os_obj_release`) on a semaphore -/
def semaphoreRelease (x : JoinSem) : JoinSem :=
  let o := objDrop x.obj
  if o.ref = 0 ∧ o.destroy then { x with obj := o, freed := true } else { x with obj := o }

/-! ## The target and the reaper -/

/-- mirrors semaphore.c:330-355 (`mini_os_semaphore_give`): a parked joiner is handed
the unit -/
def semaphoreGive (s : JoinSys) (i : Nat) : JoinSys :=
  if (s.sem i).waiting then
    let s := s.modSem i fun x => { x with waiting := false }
    match s.call with
    | .parked j i w => { s with call := .release j i w .ok }
    | _ => s
  else if 1 ≤ (s.sem i).count then s
  else s.modSem i fun x => { x with count := x.count + 1 }

/-- mirrors thread.c:355-401 (`mini_os_thread_exit`) -/
def threadExit (s : JoinSys) (v : Nat) : JoinSys :=
  let s := { s with tcb := { s.tcb with isTerminated := true, exitRetval := v }, exited := some v }
  let s := match s.tcb.joinWaitSem with
    | some i => s.semaphoreGive i
    | none => s
  { s with linked := true }

/-- mirrors thread.c:304-344 (`mini_os_thread_defunct_execute`) -/
def defunctExecute (s : JoinSys) : JoinSys :=
  if s.linked = false ∨ s.tcb.isDetach = false then s
  else
    let s := match s.tcb.joinWaitSem with
      | some i => s.modSem i semaphoreDelete
      | none => s
    { s with tcb := { s.tcb with joinWaitSem := none }, linked := false, frees := s.frees + 1 }

/-! ## The join -/

section
variable (s : JoinSys) (j : Joiner) (fresh : Option Nat)

def ret (r : JoinResult) : JoinSys :=
  { s with call := .none, results := s.results ++ [r] }

/-- A section that uses the TCB. -/
def touch : JoinSys := { s with stale := s.stale || decide (0 < s.frees) }

/-- mirrors thread.c:800-815: the first critical section -/
def joinFirst : JoinSys :=
  let s := s.touch
  if s.tcb.isTerminated then s.ret (.ok s.tcb.exitRetval)
  else if j.timeout = 0 then s.ret (.err .again)
  else { s with call := .create j s.tcb.joinWaitSem.isNone }

/-- mirrors thread.c:817-823; `alloc` says whether the heap has room -/
def joinCreate (createSem alloc : Bool) : JoinSys :=
  if createSem then
    if alloc then { s.semaphoreCreate with call := .publish j (some s.nSem) } else s.ret .nomem
  else { s with call := .publish j none }

/-- mirrors thread.c:825-837: the second critical section -/
def joinPublish : JoinSys :=
  let s := s.touch
  let stale := if s.tcb.joinWaitSem = none then none else fresh
  let waitSem := if s.tcb.joinWaitSem = none then fresh else s.tcb.joinWaitSem
  { s with
    tcb := { s.tcb with joinWaitSem := waitSem, isDetach := false }
    call := .discard j stale waitSem s.tcb.isDetach s.tcb.isTerminated }

/-- mirrors thread.c:839-845 -/
def joinDiscard (stale waitSem : Option Nat) (wasDetach terminated : Bool) : JoinSys :=
  let s := match stale with
    | some i => s.modSem i semaphoreDelete
    | none => s
  { s with call := if terminated then .collect j wasDetach .ok else .take j waitSem wasDetach }

/-- mirrors semaphore.c:289-293: the reference of the take -/
def joinTake (waitSem : Option Nat) (wasDetach : Bool) : JoinSys :=
  match waitSem with
  | none => { s with call := .collect j wasDetach .inval }
  | some i =>
    match objAcquire (s.sem i).obj with
    | (.ok, obj) => { s.modSem i fun x => { x with obj := obj } with call := .test j i wasDetach }
    | (e, _) => { s with call := .collect j wasDetach e }

section
variable (i : Nat) (wasDetach : Bool) (e : Err)

/-- mirrors semaphore.c:295-320: the unit is taken, or the joiner parks -/
def joinTest : JoinSys :=
  if 0 < (s.sem i).count then
    { s.modSem i fun x => { x with count := x.count - 1 } with call := .release j i wasDetach .ok }
  else { s.modSem i fun x => { x with waiting := true } with call := .parked j i wasDetach }

/-- The timeout of the park. -/
def expire : JoinSys :=
  { s.modSem i fun x => { x with waiting := false } with call := .release j i wasDetach .timeout }

/-- mirrors semaphore.c:322-325 -/
def joinRelease : JoinSys :=
  { s.modSem i semaphoreRelease with call := .collect j wasDetach e }

/-- mirrors thread.c:847-865: the last critical section -/
def joinCollect : JoinSys :=
  let s := s.touch
  let done := e = .ok ∨ s.tcb.isTerminated = true
  let s := { s with tcb := { s.tcb with isDetach := if done then true else wasDetach } }
  if done then s.ret (.ok s.tcb.exitRetval) else s.ret (.err e)

end

end

/-! ## Steps -/

inductive Label where
  | join (j : Joiner)
  | cs (alloc : Bool)
  | expire
  | exit (v : Nat)
  | reap
  deriving DecidableEq, Repr

/-- The joiner between two critical sections. -/
def between (s : JoinSys) : Option JoinThread :=
  match s.call with
  | .none | .parked .. => none
  | .create j _ | .publish j _ | .discard j .. | .take j .. | .test j .. | .release j ..
  | .collect j .. => some j.caller

/-- The idle thread can run when no more urgent thread has to be ready. -/
def IdleRuns (p : Prios) (s : JoinSys) : Prop := ∀ c ∈ s.between, ¬ c.Urgent p
  deriving Decidable

/-- The next critical section of the join. -/
def advance (s : JoinSys) (alloc : Bool) : Option JoinSys :=
  match s.call with
  | .none | .parked .. => none
  | .create j c => some (s.joinCreate j c alloc)
  | .publish j fresh => some (s.joinPublish j fresh)
  | .discard j stale i w t => some (s.joinDiscard j stale i w t)
  | .take j i w => some (s.joinTake j i w)
  | .test j i w => some (s.joinTest j i w)
  | .release j i w e => some (s.joinRelease j i w e)
  | .collect _ w e => some (s.joinCollect w e)

def step (p : Prios) (s : JoinSys) : Label → Option JoinSys
  | .join j =>
    if s.call = .none ∧ j.caller ∈ p.joiners ∧ s.frees = 0 then some (s.joinFirst j) else none
  | .cs alloc => s.advance alloc
  | .expire =>
    match s.call with
    | .parked j i w => if j.timeout = -1 then none else some (s.expire j i w)
    | _ => none
  | .exit v => if s.exited = none then some (s.threadExit v) else none
  | .reap => if s.IdleRuns p then some s.defunctExecute else none

def runs (p : Prios) : LTS JoinSys Label := .ofFn (· = create) (step p)

/-- A later join, with the target's exit while it is parked. -/
def laterJoin (j : Joiner) (v : Nat) : List Label :=
  [.join j, .cs true, .cs true, .cs true, .cs true, .cs true, .exit v, .cs true, .cs true]

/-- No section of a join uses the freed TCB, a join that succeeds has the target's value, no joiner
stays parked after the exit, and when no join is in progress, also after one that timed out, the next
join works and the corpse is reclaimed. -/
structure Correct (p : Prios) (s : JoinSys) : Prop where
  live : s.stale = false
  value : ∀ v, .ok v ∈ s.results → s.exited = some v
  woken : ∀ j i w, s.call = .parked j i w → s.exited = none
  works : s.call = .none → s.exited = none → ∀ j v, j.caller ∈ p.joiners → j.timeout ≠ 0 →
    ∃ s', LTS.exec (step p) s (laterJoin j v) = some s' ∧ s'.results = s.results ++ [.ok v]
  reclaimed : s.call = .none → s.exited ≠ none → s.defunctExecute.frees = 1

/-! ## The invariant -/

/-- A join semaphore that was not deleted, with `users` takes in flight. -/
structure SemOk (x : JoinSem) (exited : Option Nat) (users : Nat) (waiting : Bool) : Prop where
  live : x.obj.destroy = false
  ref : x.obj.ref = 1 + users
  wait : x.waiting = waiting
  count : exited = none → x.count = 0

/-- Before the pin: the target was not reclaimed, and its semaphore rests. -/
structure Unpinned (s : JoinSys) : Prop where
  alive : s.frees = 0
  detach : s.tcb.isDetach = true
  sem : ∀ i, s.tcb.joinWaitSem = some i → SemOk (s.sem i) s.exited 0 false

/-- From the second to the last section of a join on semaphore `i`. -/
structure Pinned (s : JoinSys) (i users : Nat) (waiting wasDetach : Bool) : Prop where
  alive : s.frees = 0
  detach : s.tcb.isDetach = false
  was : wasDetach = true
  published : s.tcb.joinWaitSem = some i
  sem : SemOk (s.sem i) s.exited users waiting

/-- The exit of the target left its unit in semaphore `i`. -/
def Posted (s : JoinSys) (i : Nat) : Prop := s.exited ≠ none → 0 < (s.sem i).count

def CallOk (s : JoinSys) : JoinCall → Prop
  | .none => 0 < s.frees ∨ Unpinned s
  | .create _ createSem => Unpinned s ∧ createSem = s.tcb.joinWaitSem.isNone
  | .publish _ fresh => Unpinned s ∧ (fresh = none ↔ s.tcb.joinWaitSem ≠ none) ∧
    ∀ i, fresh = some i → SemOk (s.sem i) s.exited 0 false
  | .discard _ stale waitSem w t => stale = none ∧ (t = true → s.exited ≠ none) ∧
    ∃ i, waitSem = some i ∧ Pinned s i 0 false w ∧ (t = false → Posted s i)
  | .take _ waitSem w => ∃ i, waitSem = some i ∧ Pinned s i 0 false w ∧ Posted s i
  | .test _ i w => Pinned s i 1 false w ∧ Posted s i
  | .parked _ i w => Pinned s i 1 true w ∧ s.exited = none
  | .release _ i w e => Pinned s i 1 false w ∧ (e = .ok → s.exited ≠ none)
  | .collect _ w e => (∃ i, Pinned s i 0 false w) ∧ (e = .ok → s.exited ≠ none)

structure Inv (s : JoinSys) : Prop where
  live : s.stale = false
  value : ∀ v, .ok v ∈ s.results → s.exited = some v
  terminated : s.tcb.isTerminated = s.exited.isSome
  retval : ∀ v, s.exited = some v → s.tcb.exitRetval = v
  linked : s.linked = true ↔ s.exited ≠ none ∧ s.frees = 0
  once : s.frees ≤ 1
  dead : 0 < s.frees → s.exited ≠ none
  call : CallOk s s.call

/-- What only the exit, the reaper and a return of the join change. -/
def ends (s : JoinSys) : Bool × Option Nat × Bool × Nat × Bool × Nat × List JoinResult :=
  (s.stale, s.exited, s.tcb.isTerminated, s.tcb.exitRetval, s.linked, s.frees, s.results)

variable {call : JoinCall}

theorem Inv.callOk {s : JoinSys} (h : Inv s) (hc : s.call = call) : CallOk s call :=
  hc ▸ h.call

theorem inv_create : Inv create where
  live := rfl
  value _ h := absurd h not_mem_nil
  terminated := rfl
  retval _ h := by cases h
  linked := by simp [create]
  once := zero_le _
  dead h := absurd h (lt_irrefl 0)
  call := .inr ⟨rfl, rfl, fun _ h => by cases h⟩

theorem touch_eq {s : JoinSys} (h : s.frees = 0) : s.touch = s := by
  rw [touch, decide_eq_false (by omega), Bool.or_false]

/-- The data a join relies on, as the exit of the target leaves it. -/
structure Kept (s s' : JoinSys) : Prop where
  detach : s'.tcb.isDetach = s.tcb.isDetach
  published : s'.tcb.joinWaitSem = s.tcb.joinWaitSem
  frees : s'.frees = s.frees
  obj : ∀ i, (s'.sem i).obj = (s.sem i).obj
  wait : ∀ i, (s'.sem i).waiting = (s.sem i).waiting
  exited : s'.exited ≠ none
  posted : ∀ i, s.tcb.joinWaitSem = some i → 0 < (s'.sem i).count

section

variable {s s' : JoinSys}

variable {i users : Nat} {w c alloc : Bool} {j : Joiner} {waitSem : Option Nat} {p : Prios}

theorem SemOk.kept (hk : Kept s s') (h : SemOk (s.sem i) s.exited users w) :
    SemOk (s'.sem i) s'.exited users w where
  live := by rw [hk.obj]; exact h.live
  ref := by rw [hk.obj]; exact h.ref
  wait := by rw [hk.wait]; exact h.wait
  count h0 := absurd h0 hk.exited

theorem Unpinned.kept (hk : Kept s s') (h : Unpinned s) : Unpinned s' where
  alive := hk.frees.trans h.alive
  detach := hk.detach.trans h.detach
  sem i hi := (h.sem i (hk.published ▸ hi)).kept hk

theorem Pinned.kept (hk : Kept s s') {w' : Bool} (h : Pinned s i users w w') :
    Pinned s' i users w w' where
  alive := hk.frees.trans h.alive
  detach := hk.detach.trans h.detach
  was := h.was
  published := hk.published.trans h.published
  sem := h.sem.kept hk

/-- The target's exit changes nothing for a join that is not parked. -/
theorem CallOk.kept (hk : Kept s s') (h : CallOk s call)
    (hp : ∀ j i w, call ≠ .parked j i w) : CallOk s' call := by
  cases call with
  | none => exact h.imp (fun hf => hk.frees ▸ hf) (Unpinned.kept hk)
  | create j c => exact ⟨h.1.kept hk, by rw [hk.published]; exact h.2⟩
  | publish j fresh =>
    exact ⟨h.1.kept hk, by rw [hk.published]; exact h.2.1, fun i hi => (h.2.2 i hi).kept hk⟩
  | discard j stale waitSem w t =>
    obtain ⟨h1, -, i, hi, h2, -⟩ := h
    exact ⟨h1, fun _ => hk.exited, i, hi, h2.kept hk, fun _ _ => hk.posted i h2.published⟩
  | take j waitSem w =>
    obtain ⟨i, hi, h1, -⟩ := h
    exact ⟨i, hi, h1.kept hk, fun _ => hk.posted i h1.published⟩
  | test j i w => exact ⟨h.1.kept hk, fun _ => hk.posted i h.1.published⟩
  | parked j i w => exact absurd rfl (hp j i w)
  | release j i w e => exact ⟨h.1.kept hk, fun _ => hk.exited⟩
  | collect j w e =>
    obtain ⟨⟨i, h1⟩, -⟩ := h
    exact ⟨⟨i, h1.kept hk⟩, fun _ => hk.exited⟩

/-- The published semaphore has a waiter only while the join is parked on it. -/
theorem CallOk.waiting (h : CallOk s call) (hf : s.frees = 0)
    (hi : s.tcb.joinWaitSem = some i) : (s.sem i).waiting = false ∨ ∃ j w, call = .parked j i w := by
  have hu : Unpinned s → (s.sem i).waiting = false := fun h => (h.sem i hi).wait
  have hp : ∀ {k users w'}, Pinned s k users false w' → (s.sem i).waiting = false := fun h => by
    obtain rfl := some_inj.mp (h.published.symm.trans hi)
    exact h.sem.wait
  cases call with
  | none => exact .inl (hu (h.resolve_left (by omega)))
  | create j c | publish j fresh => exact .inl (hu h.1)
  | discard j stale waitSem w t =>
    obtain ⟨-, -, k, -, h2, -⟩ := h
    exact .inl (hp h2)
  | take j waitSem w =>
    obtain ⟨k, -, h1, -⟩ := h
    exact .inl (hp h1)
  | test j k w | release j k w e => exact .inl (hp h.1)
  | parked j k w =>
    obtain rfl := some_inj.mp (h.1.published.symm.trans hi)
    exact .inr ⟨j, w, rfl⟩
  | collect j w e =>
    obtain ⟨⟨k, h1⟩, -⟩ := h
    exact .inl (hp h1)

/-- What the exit of the target sets, whatever the give does. -/
theorem threadExit_spec (s : JoinSys) (v : Nat) : (s.threadExit v).stale = s.stale ∧
    (s.threadExit v).results = s.results ∧ (s.threadExit v).exited = some v ∧
    (s.threadExit v).tcb = { s.tcb with isTerminated := true, exitRetval := v } ∧
    (s.threadExit v).linked = true ∧ (s.threadExit v).frees = s.frees := by
  unfold threadExit semaphoreGive
  dsimp only
  repeat' split
  all_goals exact ⟨rfl, rfl, rfl, rfl, rfl, rfl⟩

theorem modSem_sem (s : JoinSys) (i k : Nat) (f : JoinSem → JoinSem) :
    (s.modSem i f).sem k = if k = i then f (s.sem i) else s.sem k := by
  simp [modSem, update_apply]

/-- Without a parked joiner the unit stays in the semaphore. -/
theorem kept_threadExit (v : Nat) (hw : ∀ i, s.tcb.joinWaitSem = some i → (s.sem i).waiting = false) :
    Kept s (s.threadExit v) ∧ (s.threadExit v).call = s.call := by
  obtain ⟨-, -, hexit, htcb, -, hfrees⟩ := threadExit_spec s v
  have hsem : (∀ i, ((s.threadExit v).sem i).obj = (s.sem i).obj ∧
      ((s.threadExit v).sem i).waiting = (s.sem i).waiting ∧
      (s.tcb.joinWaitSem = some i → 0 < ((s.threadExit v).sem i).count)) ∧
      (s.threadExit v).call = s.call := by
    unfold threadExit
    dsimp only
    cases hi : s.tcb.joinWaitSem with
    | none => exact ⟨fun _ => ⟨rfl, rfl, fun h => by cases h⟩, rfl⟩
    | some i =>
      unfold semaphoreGive
      dsimp only
      rw [if_neg (by rw [hw i hi]; exact Bool.false_ne_true)]
      split
      · rename_i hpos
        exact ⟨fun k => ⟨rfl, rfl, fun hk => some_inj.mp hk ▸ hpos⟩, rfl⟩
      refine ⟨fun k => ?_, rfl⟩
      rw [modSem_sem]
      split
      · rename_i hk
        rw [hk]
        exact ⟨rfl, rfl, fun _ => succ_pos _⟩
      · rename_i hk
        exact ⟨rfl, rfl, fun h => absurd (some_inj.mp h).symm hk⟩
  exact ⟨⟨by rw [htcb], by rw [htcb], hfrees, fun i => (hsem.1 i).1, fun i => (hsem.1 i).2.1,
    by rw [hexit]; exact some_ne_none v, fun i => (hsem.1 i).2.2⟩, hsem.2⟩

/-- A parked joiner is handed the unit. -/
theorem threadExit_parked (hc : s.call = .parked j i w) (hi : s.tcb.joinWaitSem = some i)
    (hw : (s.sem i).waiting = true) (v : Nat) :
    s.threadExit v = { s.modSem i fun x => { x with waiting := false } with
      tcb := { s.tcb with isTerminated := true, exitRetval := v }
      exited := some v
      call := .release j i w .ok
      linked := true } := by
  unfold threadExit semaphoreGive
  dsimp only
  rw [hi]
  dsimp only
  rw [if_pos hw]
  unfold modSem
  dsimp only
  rw [hc]

section
variable (h : Inv s)
include h

theorem Inv.exit (h0 : s.exited = none) (v : Nat) : Inv (s.threadExit v) := by
  have hf : s.frees = 0 := Nat.eq_zero_of_not_pos fun hpos => h.dead hpos h0
  obtain ⟨hstale, hres, hexit, htcb, hlink, hfrees⟩ := threadExit_spec s v
  have hcall : CallOk (s.threadExit v) (s.threadExit v).call := by
    by_cases hp : ∃ j i w, s.call = .parked j i w
    · obtain ⟨j, i, w, hp⟩ := hp
      obtain ⟨hpin, -⟩ := h.callOk hp
      have hsem := hpin.sem
      rw [threadExit_parked hp hpin.published hsem.wait]
      refine ⟨{ hpin with sem := ?_ }, fun _ => some_ne_none v⟩
      refine ⟨?_, ?_, ?_, fun h => by cases h⟩
      · simpa [modSem] using hsem.live
      · simpa [modSem] using hsem.ref
      · simp [modSem]
    · have hno : ∀ j i w, s.call ≠ .parked j i w := fun j i w hc => hp ⟨j, i, w, hc⟩
      obtain ⟨hk, hcall⟩ := kept_threadExit v fun i hi =>
        (h.call.waiting hf hi).resolve_right fun ⟨j, w, hc⟩ => hno j i w hc
      rw [hcall]
      exact h.call.kept hk hno
  refine ⟨hstale.trans h.live, fun r hr => ?_, ?_, fun r hr => ?_, ?_, ?_, fun _ => ?_, hcall⟩
  · rw [hres] at hr
    exact absurd (h0.symm.trans (h.value r hr)) (some_ne_none r).symm
  · rw [htcb, hexit]
    rfl
  · rw [hexit] at hr
    rw [htcb]
    exact some_inj.mp hr
  · rw [hlink, hexit, hfrees]
    exact iff_of_true rfl ⟨some_ne_none v, hf⟩
  · rw [hfrees, hf]
    exact zero_le 1
  · rw [hexit]
    exact some_ne_none v

/-- A section of a join leaves the target's end alone. -/
theorem Inv.move (hends : s'.ends = s.ends) (hc : CallOk s' s'.call) : Inv s' := by
  simp only [ends, Prod.mk.injEq] at hends
  obtain ⟨hstale, hx, hterm, hret, hl, hf, hres⟩ := hends
  exact {
    live := hstale.trans h.live
    value := by rw [hres, hx]; exact h.value
    terminated := by rw [hterm, hx]; exact h.terminated
    retval := by rw [hret, hx]; exact h.retval
    linked := by rw [hl, hx, hf]; exact h.linked
    once := hf ▸ h.once
    dead := by rw [hx, hf]; exact h.dead
    call := hc }

/-- A join that returns leaves the target unpinned. -/
theorem Inv.ret (hu : Unpinned s) {r : JoinResult} (hr : ∀ v, r = .ok v → s.exited = some v) :
    Inv (s.ret r) := by
  refine { h with value := fun v hv => ?_, call := .inr ⟨hu.alive, hu.detach, hu.sem⟩ }
  rcases mem_append.mp hv with hv | hv
  · exact h.value v hv
  · exact hr v (mem_singleton.mp hv).symm

theorem Inv.collected (hx : s.exited ≠ none) : s.exited = some s.tcb.exitRetval := by
  obtain ⟨v, hv⟩ := ne_none_iff_exists'.mp hx
  rw [hv, h.retval v hv]

theorem Inv.terminated_iff : s.tcb.isTerminated = true ↔ s.exited ≠ none := by
  rw [h.terminated, isSome_iff_ne_none]

theorem Inv.joinFirst (hc : s.call = .none) (hf : s.frees = 0) (j : Joiner) :
    Inv (s.joinFirst j) := by
  have hcall := h.callOk hc
  have hu : Unpinned s := hcall.resolve_left (by omega)
  unfold JoinSys.joinFirst
  rw [touch_eq hf]
  dsimp only
  split
  · rename_i hterm
    refine h.ret hu fun v hv => ?_
    cases hv
    exact h.collected (h.terminated_iff.mp hterm)
  · split
    · exact h.ret hu fun v hv => by cases hv
    · exact h.move rfl
        ⟨{ hu with }, rfl⟩

theorem Inv.joinCreate (hc : s.call = .create j c) (alloc : Bool) :
    Inv (s.joinCreate j c alloc) := by
  obtain ⟨hu, rfl⟩ := h.callOk hc
  unfold JoinSys.joinCreate
  split
  · rename_i hnone
    have hnone : s.tcb.joinWaitSem = none := isNone_iff_eq_none.mp hnone
    split
    · refine h.move rfl ⟨{ hu with sem := fun i hi => ?_ }, ?_, fun i hi => ?_⟩
      · exact absurd (hnone.symm.trans hi) (some_ne_none i).symm
      · exact iff_of_false (some_ne_none _) fun h => h hnone
      · obtain rfl := some_inj.mp hi
        refine ⟨?_, ?_, ?_, fun _ => ?_⟩ <;> simp [semaphoreCreate, modSem, objInit]
    · exact h.ret hu fun v hv => by cases hv
  · rename_i hsome
    refine h.move rfl
      ⟨{ hu with }, ?_, fun i hi => by cases hi⟩
    exact iff_of_true rfl fun hnone => hsome (isNone_iff_eq_none.mpr hnone)

theorem Inv.joinPublish {fresh : Option Nat} (hc : s.call = .publish j fresh) :
    Inv (s.joinPublish j fresh) := by
  obtain ⟨hu, hfresh, hsem⟩ := h.callOk hc
  unfold JoinSys.joinPublish
  rw [touch_eq hu.alive]
  dsimp only
  have halive {i : Nat} {sem : Nat → JoinSem} : s.tcb.isTerminated = false → s.exited ≠ none →
      0 < (sem i).count := fun hterm hx =>
    absurd (h.terminated_iff.mpr hx) (by simp [hterm])
  refine h.move rfl ⟨?_, h.terminated_iff.mp, ?_⟩
  · split
    · rfl
    · rename_i hsome
      exact hfresh.mpr hsome
  · by_cases hnone : s.tcb.joinWaitSem = none
    · obtain ⟨i, hi⟩ := ne_none_iff_exists'.mp fun h0 => hfresh.mp h0 hnone
      rw [if_pos hnone]
      exact ⟨i, hi, ⟨hu.alive, rfl, hu.detach, hi, hsem i hi⟩, halive⟩
    · obtain ⟨i, hi⟩ := ne_none_iff_exists'.mp hnone
      rw [if_neg hnone]
      exact ⟨i, hi, ⟨hu.alive, rfl, hu.detach, hi, hu.sem i hi⟩, halive⟩

end

theorem Pinned.modSem {users' : Nat} {b b' : Bool} (h : Pinned s i users b w)
    {f : JoinSem → JoinSem} (hf : SemOk (f (s.sem i)) s.exited users' b') (call : JoinCall) :
    Pinned { s.modSem i f with call := call } i users' b' w := by
  refine { h with sem := ?_ }
  change SemOk ((s.modSem i f).sem i) s.exited users' b'
  rw [modSem_sem, if_pos rfl]
  exact hf

section
variable (h : Inv s) {e : Err}
include h

theorem Inv.joinDiscard {stale : Option Nat} {t : Bool}
    (hc : s.call = .discard j stale waitSem w t) : Inv (s.joinDiscard j stale waitSem w t) := by
  obtain ⟨rfl, ht, i, hi, hpin, hpost⟩ := h.callOk hc
  refine h.move rfl ?_
  unfold JoinSys.joinDiscard
  cases t with
  | true => exact ⟨⟨i, hpin.alive, hpin.detach, hpin.was, hpin.published, hpin.sem⟩, fun _ => ht rfl⟩
  | false =>
    exact ⟨i, hi, { hpin with }, hpost rfl⟩

theorem Inv.joinTake (hc : s.call = .take j waitSem w) : Inv (s.joinTake j waitSem w) := by
  obtain ⟨i, rfl, hpin, hpost⟩ := h.callOk hc
  have hok := hpin.sem
  unfold JoinSys.joinTake objAcquire
  dsimp only
  rw [if_neg (by rw [hok.live]; exact Bool.false_ne_true)]
  refine h.move rfl ?_
  refine ⟨hpin.modSem { hok with ref := ?_ } _, fun hx => ?_⟩
  · dsimp only
    rw [hok.ref]
  · dsimp only
    rw [modSem_sem, if_pos rfl]
    exact hpost hx

theorem Inv.joinTest (hc : s.call = .test j i w) : Inv (s.joinTest j i w) := by
  obtain ⟨hpin, hpost⟩ := h.callOk hc
  have hok := hpin.sem
  unfold JoinSys.joinTest
  split
  · rename_i hpos
    have hx : s.exited ≠ none := fun h0 => by
      rw [hok.count h0] at hpos
      exact lt_irrefl 0 hpos
    refine h.move rfl ⟨?_, fun _ => hx⟩
    exact hpin.modSem
      { hok with count := fun h0 => absurd h0 hx } _
  · rename_i hpos
    refine h.move rfl ⟨?_, ?_⟩
    · exact hpin.modSem
        { hok with wait := rfl } _
    · exact not_not.mp fun hx => hpos (hpost hx)

theorem Inv.expire (hc : s.call = .parked j i w) : Inv (s.expire j i w) := by
  obtain ⟨hpin, -⟩ := h.callOk hc
  have hok := hpin.sem
  refine h.move rfl ⟨?_, fun h => by cases h⟩
  exact hpin.modSem { hok with wait := rfl } _

theorem Inv.joinRelease (hc : s.call = .release j i w e) : Inv (s.joinRelease j i w e) := by
  obtain ⟨hpin, he⟩ := h.callOk hc
  have hok := hpin.sem
  refine h.move rfl ⟨⟨i, ?_⟩, he⟩
  refine hpin.modSem ?_ _
  unfold semaphoreRelease objDrop
  dsimp only
  rw [if_neg (by rw [hok.ref]; simp)]
  exact { hok with ref := by rw [hok.ref] }

theorem Inv.joinCollect (hc : s.call = .collect j w e) : Inv (s.joinCollect w e) := by
  obtain ⟨⟨i, hpin⟩, he⟩ := h.callOk hc
  unfold JoinSys.joinCollect
  rw [touch_eq hpin.alive]
  dsimp only
  have hu : Unpinned { s with tcb := { s.tcb with isDetach := true } } :=
    ⟨hpin.alive, rfl, fun k hk => by
      obtain rfl := some_inj.mp (hpin.published.symm.trans hk)
      exact hpin.sem⟩
  have hinv : Inv { s with tcb := { s.tcb with isDetach := true }, call := .none } :=
    h.move rfl (.inr { hu with })
  have hdet : (if e = .ok ∨ s.tcb.isTerminated = true then true else w) = true := by
    rw [hpin.was, ite_self]
  rw [hdet]
  split
  · rename_i hdone
    refine hinv.ret { hu with } fun v hv => ?_
    cases hv
    exact h.collected (hdone.elim he h.terminated_iff.mp)
  · exact hinv.ret { hu with } fun v hv => by cases hv

theorem Inv.advance (hs : s.advance alloc = some s') : Inv s' := by
  unfold JoinSys.advance at hs
  split at hs <;> cases hs
  · exact h.joinCreate ‹_› alloc
  · exact h.joinPublish ‹_›
  · exact h.joinDiscard ‹_›
  · exact h.joinTake ‹_›
  · exact h.joinTest ‹_›
  · exact h.joinRelease ‹_›
  · exact h.joinCollect ‹_›

end

/-- What a pass of the reaper does to a corpse that is not pinned. -/
theorem defunctExecute_spec (hl : s.linked = true) (hd : s.tcb.isDetach = true) :
    s.defunctExecute.stale = s.stale ∧ s.defunctExecute.results = s.results ∧
    s.defunctExecute.exited = s.exited ∧ s.defunctExecute.tcb = { s.tcb with joinWaitSem := none } ∧
    s.defunctExecute.linked = false ∧ s.defunctExecute.frees = s.frees + 1 ∧
    s.defunctExecute.call = s.call := by
  unfold defunctExecute
  rw [if_neg (by simp [hl, hd])]
  dsimp only
  split <;> exact ⟨rfl, rfl, rfl, rfl, rfl, rfl, rfl⟩

/-- The reaper runs while no join is in progress or the joiner is parked, which keeps the pin. -/
theorem Inv.reap (h : Inv s) (hr : s.between = none) : Inv s.defunctExecute := by
  by_cases hskip : s.linked = false ∨ s.tcb.isDetach = false
  · rw [defunctExecute, if_pos hskip]
    exact h
  obtain ⟨hl, hd⟩ : s.linked = true ∧ s.tcb.isDetach = true := by simpa using hskip
  obtain ⟨hx, hf⟩ := h.linked.mp hl
  have hc : s.call = .none := by
    have hcall := h.call
    unfold between at hr
    split at hr
    · assumption
    · rename_i hp
      rw [hp] at hcall
      exact absurd (hd.symm.trans hcall.1.detach) (by simp)
    all_goals cases hr
  obtain ⟨hstale, hres, hexit, htcb, hlink, hfrees, hcall⟩ := defunctExecute_spec hl hd
  refine ⟨hstale.trans h.live, ?_, ?_, ?_, ?_, ?_, ?_, ?_⟩
  · rw [hres, hexit]
    exact h.value
  · rw [htcb, hexit]
    exact h.terminated
  · rw [htcb, hexit]
    exact h.retval
  · rw [hlink, hfrees]
    exact iff_of_false Bool.false_ne_true fun h => absurd h.2 (succ_ne_zero _)
  · rw [hfrees, hf]
  · rw [hexit]
    exact fun _ => hx
  · rw [hcall, hc]
    exact .inl (by rw [hfrees]; exact succ_pos _)

/-! ## Whose join it is -/

def Known (p : Prios) (s : JoinSys) : Prop := ∀ j ∈ s.call.joiner, j.caller ∈ p.joiners

theorem joiner_advance (hs : s.advance alloc = some s') :
    s'.call.joiner = none ∨ s'.call.joiner = s.call.joiner := by
  unfold advance at hs
  split at hs <;> cases hs <;> rename_i hc <;> rw [hc]
  all_goals
    simp only [joinCreate, joinPublish, joinDiscard, joinTake, joinTest, joinRelease, joinCollect]
    repeat' split
    all_goals first | exact .inr rfl | exact .inl rfl

theorem joiner_threadExit (s : JoinSys) (v : Nat) : (s.threadExit v).call.joiner = s.call.joiner := by
  unfold threadExit semaphoreGive
  dsimp only
  repeat' split
  all_goals first | rfl | (rename_i hc; exact (congrArg JoinCall.joiner hc).symm)

theorem call_defunctExecute (s : JoinSys) : s.defunctExecute.call = s.call := by
  unfold defunctExecute
  split
  · rfl
  · dsimp only
    split <;> rfl

theorem expire_of_step (hs : step p s .expire = some s') :
    ∃ j i w, s.call = .parked j i w ∧ s' = s.expire j i w := by
  simp only [JoinSys.step] at hs
  split at hs
  · obtain ⟨-, hs⟩ := ite_none_left_eq_some.mp hs
    exact ⟨_, _, _, ‹_›, (some_inj.mp hs).symm⟩
  · cases hs

theorem Known.step {l : Label} (h : Known p s) (hs : step p s l = some s') : Known p s' := by
  cases l with
  | join j =>
    obtain ⟨⟨-, hj, -⟩, rfl⟩ := ite_some_none_eq_some.mp hs
    simp only [joinFirst, Known]
    intro j' hj'
    split at hj'
    · cases hj'
    split at hj'
    · cases hj'
    · exact some_inj.mp hj' ▸ hj
  | cs alloc =>
    intro j hj
    rcases joiner_advance hs with hnone | hsame
    · rw [hnone] at hj
      cases hj
    · exact h j (hsame ▸ hj)
  | expire =>
    obtain ⟨j, i, w, hc, rfl⟩ := expire_of_step hs
    intro j hj
    exact h j (by rw [hc]; exact hj)
  | exit v =>
    obtain ⟨-, rfl⟩ := ite_some_none_eq_some.mp hs
    intro j hj
    exact h j (joiner_threadExit s v ▸ hj)
  | reap =>
    obtain ⟨-, rfl⟩ := ite_some_none_eq_some.mp hs
    intro j hj
    exact h j (call_defunctExecute s ▸ hj)

/-- With urgent joiners only, the idle thread waits for the join to park or to return. -/
theorem between_of_idleRuns (hp : ∀ c ∈ p.joiners, c.Urgent p) (hk : Known p s)
    (hi : s.IdleRuns p) : s.between = none := by
  cases hr : s.between with
  | none => rfl
  | some c =>
    have hc : c ∈ p.joiners := by
      unfold between at hr
      split at hr <;> cases hr <;> rename_i hc <;> exact hk _ (by rw [hc]; rfl)
    exact absurd (hp c hc) (hi c hr)

theorem Inv.step (hp : ∀ c ∈ p.joiners, c.Urgent p) {l : Label} (h : Inv s) (hk : Known p s)
    (hs : step p s l = some s') : Inv s' := by
  cases l with
  | join j =>
    obtain ⟨⟨hc, -, hf⟩, rfl⟩ := ite_some_none_eq_some.mp hs
    exact h.joinFirst hc hf j
  | cs alloc => exact h.advance hs
  | expire =>
    obtain ⟨j, i, w, hc, rfl⟩ := expire_of_step hs
    exact h.expire hc
  | exit v =>
    obtain ⟨h0, rfl⟩ := ite_some_none_eq_some.mp hs
    exact h.exit h0 v
  | reap =>
    obtain ⟨hi, rfl⟩ := ite_some_none_eq_some.mp hs
    exact h.reap (between_of_idleRuns hp hk hi)

theorem inv_runs (hp : ∀ c ∈ p.joiners, c.Urgent p) : (runs p).IsInvariant fun s => Inv s ∧ Known p s where
  init s h := by
    rw [show s = create from h]
    exact ⟨inv_create, fun j hj => by cases hj⟩
  step s l s' h hs := ⟨h.1.step hp h.2 hs, h.2.step hs⟩

/-! ## A join on a living target -/

theorem Inv.alive (h : Inv s) (hx : s.exited = none) : s.frees = 0 ∧ s.tcb.isTerminated = false :=
  ⟨Nat.eq_zero_of_not_pos fun hpos => h.dead hpos hx, by rw [h.terminated, hx]; rfl⟩

theorem Inv.joinFirst_alive (h : Inv s) (hx : s.exited = none) (ht : j.timeout ≠ 0) :
    s.joinFirst j = { s with call := .create j s.tcb.joinWaitSem.isNone } := by
  obtain ⟨hf, hterm⟩ := h.alive hx
  unfold JoinSys.joinFirst
  rw [touch_eq hf]
  dsimp only
  rw [if_neg (by rw [hterm]; exact Bool.false_ne_true), if_neg ht]

theorem joinCreate_room (s : JoinSys) (j : Joiner) (c : Bool) : ∃ fresh,
    (s.joinCreate j c true).call = .publish j fresh ∧ (s.joinCreate j c true).ends = s.ends := by
  cases c <;> exact ⟨_, rfl, rfl⟩

theorem Inv.joinPublish_alive (h : Inv s) (hx : s.exited = none) (j : Joiner) (fresh : Option Nat) :
    ∃ stale i w, (s.joinPublish j fresh).call = .discard j stale i w false ∧
      (s.joinPublish j fresh).ends = s.ends := by
  unfold JoinSys.joinPublish
  rw [touch_eq (h.alive hx).1]
  dsimp only
  exact ⟨_, _, _, by rw [(h.alive hx).2], rfl⟩

theorem joinDiscard_alive (s : JoinSys) (j : Joiner) (stale i : Option Nat) (w : Bool) :
    (s.joinDiscard j stale i w false).call = .take j i w ∧
    (s.joinDiscard j stale i w false).ends = s.ends := by
  cases stale <;> exact ⟨rfl, rfl⟩

theorem Inv.joinTake_alive (h : Inv s) (hc : s.call = .take j waitSem w) :
    ∃ i, (s.joinTake j waitSem w).call = .test j i w ∧ (s.joinTake j waitSem w).ends = s.ends := by
  obtain ⟨i, rfl, hpin, -⟩ := h.callOk hc
  unfold JoinSys.joinTake objAcquire
  dsimp only
  rw [if_neg (by rw [hpin.sem.live]; exact Bool.false_ne_true)]
  exact ⟨i, rfl, rfl⟩

theorem Inv.joinTest_alive (h : Inv s) (hx : s.exited = none) (hc : s.call = .test j i w) :
    (s.joinTest j i w).call = .parked j i w ∧ (s.joinTest j i w).ends = s.ends := by
  have hcall := h.callOk hc
  unfold JoinSys.joinTest
  rw [if_neg (by rw [hcall.1.sem.count hx]; exact lt_irrefl 0)]
  exact ⟨rfl, rfl⟩

theorem exec_cs {r : JoinSys} {ls : List Label} (h : s.advance true = some s')
    (hr : LTS.exec (step p) s' ls = some r) : LTS.exec (step p) s (.cs true :: ls) = some r :=
  bind_eq_some_iff.mpr ⟨s', h, hr⟩

/-- On a living target the five sections after the first lead to the park. -/
theorem Inv.parks (h : Inv s) (hx : s.exited = none)
    (hc : s.call = .create j c) : ∃ s' i w, Inv s' ∧ s'.call = .parked j i w ∧ s'.ends = s.ends ∧
    ∀ {p ls r}, LTS.exec (JoinSys.step p) s' ls = some r →
      LTS.exec (JoinSys.step p) s (.cs true :: .cs true :: .cs true :: .cs true :: .cs true :: ls) =
        some r := by
  have hexit {s' : JoinSys} (he : s'.ends = s.ends) : s'.exited = none := (congrArg (·.2.1) he).trans hx
  obtain ⟨fresh, c1, e1⟩ := joinCreate_room s j c
  have h1 := h.joinCreate hc true
  obtain ⟨stale, k, w, c2, e2⟩ := h1.joinPublish_alive (hexit e1) j fresh
  have h2 := h1.joinPublish c1
  obtain ⟨c3, e3⟩ := joinDiscard_alive ((s.joinCreate j c true).joinPublish j fresh) j stale k w
  have h3 := h2.joinDiscard c2
  obtain ⟨i, c4, e4⟩ := h3.joinTake_alive c3
  have h4 := h3.joinTake c3
  have e4 := e4.trans (e3.trans (e2.trans e1))
  obtain ⟨c5, e5⟩ := h4.joinTest_alive (hexit e4) c4
  refine ⟨_, i, w, h4.joinTest c4, c5, e5.trans e4, fun hr => ?_⟩
  refine exec_cs (by rw [JoinSys.advance, hc]) (exec_cs (by rw [JoinSys.advance, c1]) ?_)
  refine exec_cs (by rw [JoinSys.advance, c2]) (exec_cs (by rw [JoinSys.advance, c3]) ?_)
  exact exec_cs (by rw [JoinSys.advance, c4]) hr

/-- The exit wakes the parked joiner, which collects the value. -/
theorem Inv.wakes (h : Inv s) (hc : s.call = .parked j i w)
    (p : Prios) (v : Nat) : ∃ s', LTS.exec (JoinSys.step p) s [.exit v, .cs true, .cs true] = some s' ∧
    s'.results = s.results ++ [.ok v] := by
  obtain ⟨hpin, hx⟩ := h.callOk hc
  have h1 := h.exit hx v
  obtain ⟨-, hres, -, htcb, -, hfrees⟩ := threadExit_spec s v
  have c1 : (s.threadExit v).call = .release j i w .ok := by
    rw [threadExit_parked hc hpin.published hpin.sem.wait]
  refine ⟨((s.threadExit v).joinRelease j i w .ok).joinCollect w .ok, ?_, ?_⟩
  · refine bind_eq_some_iff.mpr ⟨s.threadExit v, if_pos hx, ?_⟩
    exact exec_cs (by rw [JoinSys.advance, c1]) (exec_cs rfl rfl)
  · change (s.threadExit v).results ++ [.ok (s.threadExit v).tcb.exitRetval] = _
    rw [hres, htcb]

theorem Inv.correct (h : Inv s) (p : Prios) : Correct p s where
  live := h.live
  value := h.value
  woken j i w hc := by
    have hcall := h.callOk hc
    exact hcall.2
  works hc hx j v hj ht := by
    have hf := (h.alive hx).1
    have e0 := h.joinFirst_alive hx ht
    obtain ⟨s1, i, w, h1, c1, e1, hexec⟩ :=
      (h.joinFirst hc hf j).parks (by rw [e0]; exact hx) (congrArg JoinSys.call e0)
    obtain ⟨s2, h2, r2⟩ := h1.wakes c1 p v
    refine ⟨s2, bind_eq_some_iff.mpr ⟨s.joinFirst j, if_pos ⟨hc, hj, hf⟩, hexec h2⟩, ?_⟩
    rw [r2, show s1.results = (s.joinFirst j).results from congrArg (·.2.2.2.2.2.2) e1, e0]
  reclaimed hc hx := by
    have hcall := h.callOk hc
    rcases hcall with hpos | hu
    · have hl : s.linked = false := eq_false_of_ne_true fun hl => by
        have := (h.linked.mp hl).2
        omega
      rw [defunctExecute, if_pos (.inl hl)]
      exact h.once.antisymm hpos
    · obtain ⟨-, -, -, -, -, hfrees, -⟩ :=
        defunctExecute_spec (h.linked.mpr ⟨hx, hu.alive⟩) hu.detach
      rw [hfrees, hu.alive]

end

/-- After the first section of a join and the exit of the target. -/
def exitedInJoin (c : JoinThread) : JoinSys :=
  { create with
    call := .create ⟨c, -1⟩ true
    tcb := ⟨true, true, 7, none⟩
    exited := some 7
    linked := true }

/-- A joiner that lets the idle thread run lets the reaper free the target between the first two
sections of the join. -/
theorem stale_of_not_urgent {p : Prios} {c : JoinThread} (hc : c ∈ p.joiners) (hu : ¬ c.Urgent p) :
    ∃ s, (runs p).Reachable s ∧ s.stale = true := by
  have hjoin : step p create (.join ⟨c, -1⟩) =
      some { create with call := .create ⟨c, -1⟩ true } := if_pos ⟨rfl, hc, rfl⟩
  have hr : (runs p).Reachable (exitedInJoin c) :=
    .step (l := .exit 7) (.step (.init rfl) hjoin) rfl
  have hidle : (exitedInJoin c).IdleRuns p := fun q hq => some_inj.mp hq ▸ hu
  have hreap : (runs p).Reachable (exitedInJoin c).defunctExecute :=
    .step (l := .reap) hr (if_pos hidle)
  exact ⟨_, .step (l := .cs true) (.step (l := .cs true) hreap rfl) rfl, rfl⟩

end JoinSys

/-- Joins are correct in every run exactly when no joiner lets the idle thread run between its
sections. -/
theorem Prios.correct_iff (p : Prios) :
    (∀ s, (JoinSys.runs p).Reachable s → s.Correct p) ↔
      ∀ c ∈ p.joiners, c.priority ≠ p.idle ∧ c.pauses = false := by
  constructor
  · intro h c hc
    by_contra hu
    obtain ⟨s, hr, hstale⟩ := JoinSys.stale_of_not_urgent hc hu
    exact Bool.false_ne_true ((h s hr).live.symm.trans hstale)
  · intro hp s hr
    exact ((JoinSys.inv_runs hp).holds hr).1.correct p

/-- A joiner at the idle priority writes the pin into the freed TCB. -/
theorem join_fails_at_idle_priority :
    ¬ ∀ (p : Prios) (s : JoinSys), (JoinSys.runs p).Reachable s → s.Correct p := by
  intro h
  obtain ⟨s, hr, hstale⟩ := JoinSys.stale_of_not_urgent (p := ⟨31, [⟨31, false⟩], by simp⟩)
    mem_cons_self (by decide)
  exact Bool.false_ne_true ((h _ s hr).live.symm.trans hstale)

end MiniTree.Os
