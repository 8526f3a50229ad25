import MiniTree.Core.LTS
import MiniTree.Os.Wait

/-!
# Semaphores (`lib/mini-os/src/semaphore.c`)

One semaphore, used by any number of threads and by interrupts. A label is a critical
section: `mini_os_semaphore_take` has one that takes its reference, one that tests the
count, one after the park and one that drops the reference; the other functions have a
single one. `tick` is the SysTick handler.

History variables, read by no modelled function: `gives` counts the gives that returned
`MINI_OS_OK`, `dropped` the units `mini_os_semaphore_to_binary` swallowed, `units` lists
the takes that received a unit, in that order, and `returns` what the finished takes
reported. A take is named by its thread and the number of the thread's takes so far.

Left out: the delete functions, names, and the caller's yield after a wake.
-/

namespace MiniTree.Os

open MiniTree.Core Function

/-- Where a `mini_os_semaphore_take` stands between two critical sections. -/
inductive TakePc where
  | idle
  /-- the reference is held, the count is tested next -/
  | entered (timeout : UInt32) (inThread : Bool)
  | parked
  /-- only `mini_os_obj_release` is left -/
  | leave (ret : Err)
  deriving DecidableEq, Repr

abbrev TakeId := Tid × Nat

structure SemSys where
  count : Nat
  maxCount : Nat
  obj : Obj
  waits : Waits Unit
  pc : Tid → TakePc
  nth : Tid → Nat
  gives : Nat
  dropped : Nat
  units : List TakeId
  returns : List (TakeId × Err)

namespace SemSys

/-- mirrors semaphore.c:79-100 (`mini_os_semaphore_init`) -/
def semaphoreInit (maxCount count : Nat) (heapOwned : Bool) : Option SemSys :=
  if maxCount = 0 ∨ maxCount < count then none
  else some
    { count := count
      maxCount := maxCount
      obj := objInit heapOwned
      waits := .init
      pc := fun _ => .idle
      nth := fun _ => 0
      gives := 0
      dropped := 0
      units := []
      returns := [] }

section
variable (s : SemSys) (t : Tid) (timeout : UInt32)

/-- The take thread `t` is in, or made last. -/
def call : TakeId := (t, s.nth t)

def setPc (p : TakePc) : SemSys :=
  { s with pc := update s.pc t p }

/-- The history variable: `t` starts its next take. -/
def nextTake : SemSys :=
  { s with nth := update s.nth t (s.nth t + 1) }

/-- The history variable: the take of `t` returns `ret`. -/
def report (ret : Err) : SemSys :=
  { s with returns := s.returns ++ [(s.call t, ret)] }

/-- mirrors semaphore.c:148-172 (`mini_os_semaphore_to_binary`) -/
def toBinary : Err × SemSys :=
  if s.count ≠ s.maxCount ∨ s.waits.lists () ≠ [] then (.busy, s)
  else (.ok, { s with maxCount := 1, count := 1, dropped := s.dropped + (s.count - 1) })

/-- mirrors semaphore.c:174-196 (`mini_os_semaphore_to_counting`) -/
def toCounting (maxCount : Nat) : Err × SemSys :=
  if maxCount < 2 then (.inval, s)
  else if s.maxCount ≠ 1 then (.notsupp, s)
  else (.ok, { s with maxCount := maxCount })

/-- mirrors semaphore.c:283-293: the reference of a take -/
def takeBegin (inThread : Bool) : SemSys :=
  let s := s.nextTake t
  match objAcquire s.obj with
  | (.ok, obj) => { s with obj := obj }.setPc t (.entered timeout inThread)
  | (err, _) => s.report t err

/-- mirrors semaphore.c:295-319: the count is tested -/
def takeTest (inThread : Bool) : SemSys :=
  if 0 < s.count then
    { s with count := s.count - 1, units := s.units ++ [s.call t] }.setPc t (.leave .ok)
  else if timeout = 0 then s.setPc t (.leave .again)
  else if inThread = false then s.setPc t (.leave .inval)
  else { s with waits := s.waits.syncWaitPark t () timeout }.setPc t .parked

/-- mirrors semaphore.c:319-320: back from the park -/
def takeUnparked : SemSys :=
  { s with waits := s.waits.syncWaitDone t }.setPc t
    (.leave (if (s.waits.thr t).waitStatus then .ok else .timeout))

/-- mirrors semaphore.c:322-326: the reference is dropped -/
def takeEnd (ret : Err) : SemSys := ({ s with obj := objDrop s.obj }.setPc t .idle).report t ret

/-- mirrors semaphore.c:330-355 (`mini_os_semaphore_give`) and 357-380
(`mini_os_semaphore_give_isr`), which differ in the yield only -/
def give : Err × SemSys :=
  match s.waits.wakeOne () with
  | (some t, w) =>
    (.ok, { s with waits := w, gives := s.gives + 1, units := s.units ++ [s.call t] })
  | (none, _) =>
    if s.maxCount ≤ s.count then (.busy, s)
    else (.ok, { s with count := s.count + 1, gives := s.gives + 1 })

end

inductive Label where
  | take (t : Tid) (timeout : UInt32) (inThread : Bool)
  | tryTake (t : Tid) (inThread : Bool)
  | cs (t : Tid)
  | give
  | giveIsr
  | tick
  | toBinary
  | toCounting (maxCount : Nat)
  deriving DecidableEq, Repr

/-- A thread that may run and is in no take starts one. -/
def begin (s : SemSys) (t : Tid) (timeout : UInt32) (inThread : Bool) : Option SemSys :=
  if s.pc t = .idle ∧ (s.waits.thr t).Runnable then some (s.takeBegin t timeout inThread) else none

/-- The next critical section of the take `t` is in. -/
def advance (s : SemSys) (t : Tid) : Option SemSys :=
  if (s.waits.thr t).Runnable then
    match s.pc t with
    | .idle => none
    | .entered timeout inThread => some (s.takeTest t timeout inThread)
    | .parked => some (s.takeUnparked t)
    | .leave ret => some (s.takeEnd t ret)
  else none

def step (s : SemSys) : Label → Option SemSys
  | .take t timeout inThread => s.begin t timeout inThread
  | .tryTake t inThread => s.begin t 0 inThread
  | .cs t => s.advance t
  | .give => some s.give.2
  | .giveIsr => some s.give.2
  | .tick => some { s with waits := s.waits.tickDecrement }
  | .toBinary => some s.toBinary.2
  | .toCounting maxCount => some (s.toCounting maxCount).2

/-- The runs of a semaphore that starts with `count` of `maxCount` units. -/
def semaphore (maxCount count : Nat) (heapOwned : Bool) : LTS SemSys Label :=
  .ofFn (fun s => semaphoreInit maxCount count heapOwned = some s) step

end SemSys

end MiniTree.Os
