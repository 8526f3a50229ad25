import MiniTree.Os.QueueFifo

/-!
# The event bus

`core/src/event_bus.c` over the mini-os backend: a table of subscribers behind a mutex, a
queue of events, and a dispatch task that takes an event, copies the table under the mutex
and calls the subscribers whose range contains the event's id. The steps of the dispatch
task, of `event_bus_start` and of each `event_bus_subscribe` interleave; a post is the
critical section of the queue's send.

`event_bus_start` creates the task first and stores its handle afterwards, and the task reads
that handle as its stop flag.

**Results.** `events_delivered`: in a run where the task does not test the handle before it is
stored, and where no subscriber is entered between an event's receive and the copy of the
table, the task never exits and every event that was accepted is in the queue, in the task's
hands, or has gone once to each subscriber of the time it was taken that wants it.
-/

namespace MiniTree.EventBus

open MiniTree.Core Os Function List Option Prod

/-- mirrors core/include/event_bus.h:31-34 (`struct event`) -/
structure Event where
  id : UInt32
  arg : UInt32
  deriving DecidableEq, Repr

namespace Event

def encode (e : Event) : Bytes := toLe32 e.id ++ toLe32 e.arg

def decode (msg : Bytes) : Event := ⟨le32At msg 0, le32At msg 4⟩

theorem decode_encode (e : Event) : decode e.encode = e := by
  have hid : le32At e.encode 0 = e.id := le32At_append [] (toLe32 e.arg) e.id
  have harg : le32At e.encode 4 = e.arg := by
    have h := le32At_append (toLe32 e.id) [] e.arg
    rw [append_nil] at h
    exact h
  unfold decode
  rw [hid, harg]

end Event

/-- mirrors event_bus.c:47-52 (`struct subscriber`); `callback` is `none` for NULL -/
structure Subscriber where
  idMin : UInt32
  idMax : UInt32
  callback : Option Nat
  userData : Nat
  deriving DecidableEq, Repr

/-- mirrors event_bus.c:113-114 -/
def Subscriber.wants (sub : Subscriber) (e : Event) : Bool :=
  sub.callback.isSome && decide (sub.idMin ≤ e.id) && decide (e.id ≤ sub.idMax)

/-- `K_QUEUE_LEN`, `K_MAX_SUBSCRIBERS`, and the heap memory the queue's pool gets. -/
structure BusCfg where
  queueLen : Nat
  maxSubscribers : Nat
  pool : Nat → UInt8
  queueLen_pos : 0 < queueLen

inductive Err where
  | ok | isr | again | nospc | notsupp | inval | nomem
  deriving DecidableEq, Repr

inductive Holder where
  | dispatch
  | task (t : Nat)
  deriving DecidableEq, Repr

/-- Where a task is in `event_bus_subscribe`. -/
inductive Call where
  | idle
  | lock (sub : Subscriber)
  | write (sub : Subscriber)
  | unlock
  deriving DecidableEq, Repr

/-- Where the dispatch task is. -/
inductive Pc where
  /-- there is no such task -/
  | absent
  | receive
  | test (e : Event)
  | lock (e : Event)
  | count (e : Event)
  | copy (e : Event) (count : Nat) (snapshot : List Subscriber)
  | unlock (e : Event) (snapshot : List Subscriber)
  | call (e : Event) (rest : List Subscriber)
  | exited
  deriving DecidableEq, Repr

/-- mirrors event_bus.c:54-66 (`struct event_bus`); `task` tells whether the handle
is stored, `subLock` who holds the mutex -/
structure Bus where
  subscribers : List Subscriber
  inited : Bool
  isSealed : Bool
  queue : Option MsgQueue
  task : Bool
  dropped : UInt32
  subLock : Option Holder
  osInitialized : Bool
  /-- a creator is between the thread's creation and the store of its handle -/
  starting : Bool
  pc : Pc
  calls : Nat → Call
  /-- the events whose post returned `MINI_OK` -/
  posted : List Event
  /-- the events taken out of the queue, with the table at that time -/
  taken : List (Event × List Subscriber)
  /-- the calls of callbacks -/
  passed : List (Event × Subscriber)

namespace Bus

variable (cfg : BusCfg)

def fresh : Bus where
  subscribers := []
  inited := false
  isSealed := false
  queue := none
  task := false
  dropped := 0
  subLock := none
  osInitialized := false
  starting := false
  pc := .absent
  calls _ := .idle
  posted := []
  taken := []
  passed := []

section
variable (b : Bus) (inIsr : Bool) (e : Event)

/-- mirrors event_bus.c:132-155 (`event_bus_init`); `created` tells whether the queue
and the mutex could be created -/
def init (created : Bool) : Err × Bus :=
  if b.inited = true then (.ok, b)
  else if created = false then (.nomem, b)
  else (.ok, { b with
    queue := some (.queueInit 8 cfg.queueLen cfg.pool true)
    inited := true })

/-- The tests at the start of `event_bus_subscribe`; the mutex exists once the bus is
initialised.
mirrors event_bus.c:169-178 -/
def subscribeTest (sub : Subscriber) : Err :=
  if inIsr = true then .isr
  else if b.isSealed = true then .notsupp
  else if sub.callback = none then .inval
  else if b.inited = false then .inval
  else if sub.idMax < sub.idMin then .inval
  else .ok

/-- mirrors event_bus.c:185-193 -/
def enter (sub : Subscriber) : Err × Bus :=
  if b.subscribers.length < cfg.maxSubscribers then
    (.ok, { b with subscribers := b.subscribers ++ [sub] })
  else (.nospc, b)

/-- mirrors event_bus.c:207-234 (`event_bus_post_internal`) -/
def postInternal : Err × Bus :=
  match b.queue with
  | none => (.again, b)
  | some q =>
    if b.inited = false then (.again, b)
    else if b.osInitialized = false then (.again, b)
    else if q.Ready (.send e.encode) then
      (.ok, { b with queue := some (q.put e.encode), posted := b.posted ++ [e] })
    else (.nospc, { b with dropped := b.dropped + 1 })

/-- mirrors event_bus.c:242-248 (`event_bus_post`) -/
def post : Err × Bus :=
  if inIsr = true then (.isr, b) else b.postInternal e

/-- mirrors event_bus.c:257-260 (`event_bus_post_from_isr`) -/
def postFromIsr : Err × Bus := b.postInternal e

/-- The first part of `event_bus_start`, up to the created thread; `created` tells whether
there is memory for it.
mirrors event_bus.c:274-283 (`event_bus_start`),
mini_backend_mini_os.c:426-446 (`mini_task_create_handle`) -/
def start (created : Bool) : Bus :=
  if b.task = true ∨ b.queue = none then b
  else if created = false then { b with task := false }
  else { b with task := false, starting := true, pc := .receive }

/-- mirrors mini_backend_mini_os.c:447 -/
def store : Bus := { b with starting := false, task := true }

/-- One step of `event_bus_dispatch_task`; `none` while it is blocked.
mirrors event_bus.c:80-122 (`event_bus_dispatch_task`) -/
def dispatch (b : Bus) : Option Bus :=
  match b.pc with
  | .absent | .exited => none
  | .receive =>
    match b.queue with
    | none => none
    | some q =>
      if q.Ready .receive then
        some { b with
          queue := some q.drop
          pc := .test (.decode q.front)
          taken := b.taken ++ [(.decode q.front, b.subscribers)] }
      else none
  | .test e => some (if b.task = false then { b with pc := .exited } else { b with pc := .lock e })
  | .lock e =>
    if b.subLock = none then some { b with subLock := some .dispatch, pc := .count e } else none
  | .count e => some { b with pc := .copy e b.subscribers.length [] }
  | .copy e count snapshot =>
    if snapshot.length < count then
      some { b with pc := .copy e count (snapshot ++ b.subscribers[snapshot.length]?.toList) }
    else some { b with pc := .unlock e snapshot }
  | .unlock e snapshot => some { b with subLock := none, pc := .call e snapshot }
  | .call _ [] => some { b with pc := .receive }
  | .call e (sub :: rest) =>
    some { b with
      pc := .call e rest
      passed := if sub.wants e then b.passed ++ [(e, sub)] else b.passed }

/-- One step of task `t` in `event_bus_subscribe` behind its tests.
mirrors event_bus.c:180-197 -/
def advance (t : Nat) : Option Bus :=
  match b.calls t with
  | .idle => none
  | .lock sub =>
    if b.subLock = none then
      some { b with subLock := some (.task t), calls := update b.calls t (.write sub) }
    else none
  | .write sub => some { (b.enter cfg sub).2 with calls := update b.calls t .unlock }
  | .unlock => some { b with subLock := none, calls := update b.calls t .idle }

end

inductive Label where
  | init (created : Bool)
  | osInitialized
  | sealTable
  | post (inIsr : Bool) (e : Event)
  | postFromIsr (e : Event)
  | subscribe (t : Nat) (inIsr : Bool) (sub : Subscriber)
  | advance (t : Nat)
  | start (created : Bool)
  | store
  | dispatch
  /-- the mutex's timeout runs out for task `t`, or for the dispatch task -/
  | timeout (t : Nat)
  | dispatchTimeout

/-- Every step but `event_bus_stop`. One task at a time starts the bus. -/
def next (b : Bus) : Label → Option Bus
  | .init created => some (b.init cfg created).2
  | .osInitialized => some { b with osInitialized := true }
  | .sealTable => some { b with isSealed := true }
  | .post inIsr e => some (b.post inIsr e).2
  | .postFromIsr e => some (b.postFromIsr e).2
  | .subscribe t inIsr sub =>
    if b.calls t ≠ .idle then none
    else if b.subscribeTest inIsr sub ≠ .ok then some b
    else some { b with calls := update b.calls t (.lock sub) }
  | .advance t => b.advance cfg t
  | .start created => if b.starting = true then none else some (b.start created)
  | .store => if b.starting = true then some b.store else none
  | .dispatch => b.dispatch
  | .timeout t =>
    match b.calls t with
    | .lock _ => some { b with calls := update b.calls t .idle }
    | _ => none
  | .dispatchTimeout =>
    match b.pc with
    | .lock _ => some { b with pc := .exited }
    | _ => none

def system : LTS Bus Label := LTS.ofFn (· = fresh) (next cfg)

/-! ## What the property says -/

/-- The calls that an event taken with that table is due. -/
def due (t : Event × List Subscriber) : List (Event × Subscriber) :=
  (t.2.filter (·.wants t.1)).map (t.1, ·)

/-- The events in the queue, the oldest first. -/
def pending (b : Bus) : List Event :=
  match b.queue with
  | none => []
  | some q => q.contents.map Event.decode

end Bus

/-- The event the dispatch task has in hand. -/
def Pc.event : Pc → Option Event
  | .absent | .receive | .exited => none
  | .test e | .lock e | .count e | .copy e _ _ | .unlock e _ | .call e _ => some e

/-- An event is in hand and the mutex for the copy of the table is not taken yet. -/
def Pc.uncopied : Pc → Bool
  | .test _ | .lock _ => true
  | _ => false

def Pc.holds : Pc → Bool
  | .count _ | .copy .. | .unlock .. => true
  | _ => false

def Call.holds : Call → Bool
  | .write _ | .unlock => true
  | _ => false

namespace Bus

structure Delivers (b : Bus) : Prop where
  alive : b.pc ≠ .exited
  queued : b.posted = b.taken.map fst ++ b.pending
  passed : b.pc.event = none → b.passed = b.taken.flatMap due
  dispatching : ∀ e ∈ b.pc.event, ∃ done table, b.taken = done ++ [(e, table)] ∧
    ∃ calls, b.passed = done.flatMap due ++ calls ∧ calls <+: due (e, table)

def NoTimeout (_ : Bus) : Label → Prop
  | .timeout _ | .dispatchTimeout => False
  | _ => True

instance (b : Bus) (l : Label) : Decidable (NoTimeout b l) := by
  unfold NoTimeout
  split <;> infer_instance

/-- The handle is stored before the dispatch task tests it, and no subscriber is entered while
an event is in hand for which the dispatch task has not locked the table yet. -/
def Undisturbed (b : Bus) : Label → Prop
  | .dispatch => ∀ e, b.pc = .test e → b.starting = false
  | .advance t => ∀ sub, b.calls t = .write sub → b.pc.uncopied = false
  | _ => True

/-! ## The invariant -/

/-- What the history says while the dispatch task is at a point of its loop. -/
def Flow (table : List Subscriber) (taken : List (Event × List Subscriber))
    (passed : List (Event × Subscriber)) : Pc → Prop
  | .absent | .receive => passed = taken.flatMap due
  | .test e | .lock e | .count e =>
    ∃ done, taken = done ++ [(e, table)] ∧ passed = done.flatMap due
  | .copy e count snapshot => (∃ done, taken = done ++ [(e, table)] ∧ passed = done.flatMap due) ∧
    count = table.length ∧ snapshot <+: table
  | .unlock e snapshot => ∃ done, taken = done ++ [(e, snapshot)] ∧ passed = done.flatMap due
  | .call e rest => ∃ done called, taken = done ++ [(e, called ++ rest)] ∧
    passed = done.flatMap due ++ due (e, called)
  | .exited => False

/-- Whoever is between lock and unlock holds the mutex. -/
structure Excl (lock : Option Holder) (calls : Nat → Call) (pc : Pc) : Prop where
  calls : ∀ t, (calls t).holds = true → lock = some (.task t)
  pc : pc.holds = true → lock = some .dispatch

structure Inv (b : Bus) : Prop where
  inited : b.inited = false → b.queue = none
  queue : ∀ q ∈ b.queue, q.Ok ∧ q.msgSize = 8
  queued : b.posted = b.taken.map fst ++ b.pending
  handle : b.pc ≠ .absent → b.starting = false → b.task = true
  excl : Excl b.subLock b.calls b.pc
  flow : Flow b.subscribers b.taken b.passed b.pc

variable {cfg} {b b' : Bus}

section Excl

variable {lock : Option Holder} {calls : Nat → Call} {pc : Pc} {t : Nat}

theorem Excl.enter (h : Excl none calls pc) (t : Nat) (c : Call) :
    Excl (some (.task t)) (update calls t c) pc := by
  refine ⟨fun u hu => ?_, fun hp => ?_⟩
  · by_cases hut : u = t
    · rw [hut]
    · rw [update_of_ne hut] at hu
      cases h.calls u hu
  · cases h.pc hp

theorem Excl.move (h : Excl lock calls pc) {c : Call} (hc : c.holds = true → (calls t).holds = true) :
    Excl lock (update calls t c) pc := by
  refine ⟨fun u hu => ?_, h.pc⟩
  by_cases hut : u = t
  · subst hut
    rw [update_self] at hu
    exact h.calls u (hc hu)
  · rw [update_of_ne hut] at hu
    exact h.calls u hu

theorem Excl.leave (h : Excl (some (.task t)) calls pc) : Excl none (update calls t .idle) pc := by
  refine ⟨fun u hu => ?_, fun hp => ?_⟩
  · by_cases hut : u = t
    · subst hut
      rw [update_self] at hu
      cases hu
    · rw [update_of_ne hut] at hu
      cases h.calls u hu
      exact absurd rfl hut
  · cases h.pc hp

theorem Excl.dispatchEnter (h : Excl none calls pc) (pc' : Pc) : Excl (some .dispatch) calls pc' := by
  refine ⟨fun t ht => ?_, fun _ => rfl⟩
  cases h.calls t ht

theorem Excl.dispatchMove (h : Excl lock calls pc) {pc' : Pc}
    (hp : pc'.holds = true → pc.holds = true) : Excl lock calls pc' :=
  ⟨h.calls, fun hp' => h.pc (hp hp')⟩

theorem Excl.dispatchLeave (h : Excl (some .dispatch) calls pc) {pc' : Pc}
    (hp : pc'.holds = false) : Excl none calls pc' := by
  refine ⟨fun t ht => ?_, fun hp' => ?_⟩
  · cases h.calls t ht
  · rw [hp] at hp'
    cases hp'

end Excl

theorem due_append (e : Event) (l l' : List Subscriber) :
    due (e, l ++ l') = due (e, l) ++ due (e, l') := by
  unfold due
  rw [filter_append, map_append]

theorem due_singleton (e : Event) (sub : Subscriber) :
    due (e, [sub]) = if sub.wants e then [(e, sub)] else [] := by
  unfold due
  rw [filter_singleton]
  dsimp only
  cases sub.wants e with
  | true => rfl
  | false => rfl

theorem Inv.delivers (h : Inv b) : Delivers b := by
  refine ⟨fun hpc => ?_, h.queued, fun hpc => ?_, fun e he => ?_⟩
  · have := h.flow
    rw [hpc] at this
    exact this
  · have hf := h.flow
    generalize b.pc = pc at hpc hf
    cases pc with
    | absent | receive => exact hf
    | exited => exact hf.elim
    | _ => cases hpc
  · have hf := h.flow
    generalize b.pc = pc at he hf
    cases pc with
    | absent | receive | exited => cases he
    | test e | lock e | count e | unlock e snapshot =>
      cases he
      obtain ⟨done, h1, h2⟩ := hf
      exact ⟨done, _, h1, [], by rw [h2, append_nil], nil_prefix⟩
    | copy e count snapshot =>
      cases he
      obtain ⟨⟨done, h1, h2⟩, -⟩ := hf
      exact ⟨done, _, h1, [], by rw [h2, append_nil], nil_prefix⟩
    | call e rest =>
      cases he
      obtain ⟨done, called, h1, h2⟩ := hf
      refine ⟨done, _, h1, _, h2, ?_⟩
      rw [due_append]
      exact prefix_append ..

theorem Inv.fresh : Inv fresh where
  inited _ := rfl
  queue _ hq := (not_mem_none _ hq).elim
  queued := rfl
  handle h := absurd rfl h
  excl := by
    refine ⟨fun t ht => ?_, fun hp => ?_⟩
    · cases ht
    · cases hp
  flow := rfl

theorem Inv.init (h : Inv b) (created : Bool) : Inv (b.init cfg created).2 := by
  unfold Bus.init
  split
  · exact h
  rename_i hi
  split
  · exact h
  have hnone := h.inited (Bool.not_eq_true _ ▸ hi)
  refine ⟨fun hf => ?_, fun q hq => ?_, ?_, h.handle, h.excl, h.flow⟩
  · cases hf
  · cases hq
    exact ⟨⟨cfg.queueLen_pos, Nat.zero_le _, cfg.queueLen_pos, (Nat.zero_mod _).symm⟩, rfl⟩
  · have hpend : b.pending = [] := by
      unfold pending
      rw [hnone]
    rw [h.queued, hpend]
    rfl

theorem Inv.postInternal (h : Inv b) (e : Event) : Inv (b.postInternal e).2 := by
  unfold Bus.postInternal
  split
  · exact h
  rename_i q hq
  split
  · exact h
  rename_i hi
  split
  · exact h
  split
  · rename_i hroom
    obtain ⟨hok, hsize⟩ := h.queue q hq
    have hmsg : e.encode.length = q.msgSize := hsize.symm
    refine ⟨fun hf => absurd hf hi, fun q' hq' => ?_, ?_, h.handle, h.excl, h.flow⟩
    · cases hq'
      exact ⟨hok.put _ hroom, hsize⟩
    · have hpend : b.pending = q.contents.map Event.decode := by
        unfold pending
        rw [hq]
      change b.posted ++ [e] = b.taken.map fst ++ (q.put e.encode).contents.map Event.decode
      rw [MsgQueue.contents_put hok hmsg hroom, map_append, h.queued, hpend,
        append_assoc, map_singleton, Event.decode_encode]
  · exact { h with }

/-- Nobody copies the table while a task writes to it. -/
theorem Flow.enter {table taken passed pc} (h : Flow table taken passed pc)
    (hu : pc.uncopied = false) (hh : pc.holds = false) (table' : List Subscriber) :
    Flow table' taken passed pc := by
  cases pc with
  | test e | lock e => cases hu
  | count e | copy e count snapshot | unlock e snapshot => cases hh
  | absent | receive | call e rest | exited => exact h

theorem Inv.advance (h : Inv b) {t : Nat} (hok : Undisturbed b (.advance t))
    (hn : b.advance cfg t = some b') : Inv b' := by
  unfold Bus.advance at hn
  have hex := h.excl
  split at hn
  · cases hn
  · rename_i sub hc
    obtain ⟨hfree, rfl⟩ := ite_some_none_eq_some.mp hn
    rw [hfree] at hex
    exact { h with excl := hex.enter t _ }
  · rename_i sub hc
    cases hn
    have hheld : (b.calls t).holds = true := by
      rw [hc]
      rfl
    have hpc : b.pc.holds = false := by
      cases hp : b.pc.holds with
      | false => rfl
      | true => cases (hex.calls t hheld).symm.trans (hex.pc hp)
    unfold enter
    split
    · exact { h with excl := hex.move fun _ => hheld, flow := h.flow.enter (hok sub hc) hpc _ }
    · exact { h with excl := hex.move fun _ => hheld }
  · rename_i hc
    cases hn
    rw [hex.calls t (by rw [hc]; rfl)] at hex
    exact { h with excl := hex.leave }

theorem Inv.start (h : Inv b) (hs : b.starting = false) (created : Bool) : Inv (b.start created) := by
  unfold Bus.start
  split
  · exact h
  rename_i hg
  have hpc : b.pc = .absent := by
    by_contra hpc
    exact hg (.inl (h.handle hpc hs))
  split
  · exact { h with handle := fun hne => absurd hpc hne }
  refine ⟨h.inited, h.queue, h.queued, fun _ hf => ?_, h.excl.dispatchMove fun hp => ?_, ?_⟩
  · cases hf
  · cases hp
  · have hf := h.flow
    rw [hpc] at hf
    exact hf

theorem copied {snapshot table : List Subscriber} (h : snapshot <+: table)
    (hlt : snapshot.length < table.length) : snapshot ++ table[snapshot.length]?.toList <+: table := by
  obtain ⟨rest, rfl⟩ := h
  cases rest with
  | nil => simp at hlt
  | cons x rest =>
    rw [List.getElem?_append_right (le_refl _), Nat.sub_self]
    exact ⟨rest, by simp⟩

/-- A step of the dispatch task that leaves the queue alone. -/
theorem Inv.go (h : Inv b) (hne : b.pc ≠ .absent) {lock : Option Holder} {pc : Pc}
    {passed : List (Event × Subscriber)} (hex : Excl lock b.calls pc)
    (hf : Flow b.subscribers b.taken passed pc) :
    Inv { b with subLock := lock, pc := pc, passed := passed } :=
  ⟨h.inited, h.queue, h.queued, fun _ => h.handle hne, hex, hf⟩

theorem Inv.receive (h : Inv b) (hpc : b.pc = .receive) {q : MsgQueue} (hq : b.queue = some q)
    (hr : q.Ready .receive) : Inv { b with
      queue := some q.drop
      pc := .test (.decode q.front)
      taken := b.taken ++ [(.decode q.front, b.subscribers)] } := by
  obtain ⟨hok, hsize⟩ := h.queue q hq
  have hex := h.excl
  have hf := h.flow
  rw [hpc] at hex hf
  refine ⟨fun hi => ?_, fun q' hq' => ?_, ?_, fun _ => h.handle ?_, hex.dispatchMove id,
    ⟨b.taken, rfl, hf⟩⟩
  · have := h.inited hi
    rw [hq] at this
    cases this
  · cases hq'
    exact ⟨hok.drop hr, hsize⟩
  · have hpend : b.pending = q.contents.map Event.decode := by
      unfold pending
      rw [hq]
    change b.posted = (b.taken ++ [(Event.decode q.front, b.subscribers)]).map fst ++
      q.drop.contents.map Event.decode
    rw [h.queued, hpend, MsgQueue.contents_drop hok hr, map_cons, map_append, append_assoc]
    rfl
  · rw [hpc]
    exact Pc.noConfusion

theorem Inv.dispatch (h : Inv b) (hok : Undisturbed b .dispatch) (hn : b.dispatch = some b') :
    Inv b' := by
  have hf := h.flow
  have hex := h.excl
  have hgo := fun hne => @Inv.go b h hne
  have hhandle := h.handle
  unfold Bus.dispatch at hn
  split at hn
  · cases hn
  · cases hn
  · rename_i hpc
    split at hn
    · cases hn
    split at hn
    · rename_i q hq hr
      cases hn
      exact h.receive hpc hq hr
    · cases hn
  all_goals
    rename_i hpc
    rw [hpc] at hf hex hgo hhandle
  · rename_i e
    have htask := hhandle Pc.noConfusion (hok e hpc)
    rw [if_neg (by rw [htask]; exact Bool.noConfusion)] at hn
    cases hn
    exact hgo Pc.noConfusion (hex.dispatchMove id) hf
  · rename_i e
    obtain ⟨hfree, rfl⟩ := ite_some_none_eq_some.mp hn
    rw [hfree] at hex
    exact hgo Pc.noConfusion (hex.dispatchEnter _) hf
  · cases hn
    exact hgo Pc.noConfusion (hex.dispatchMove id) ⟨hf, rfl, nil_prefix⟩
  · rename_i e count snapshot
    obtain ⟨hd, rfl, hpre⟩ := hf
    split at hn
    · rename_i hlt
      cases hn
      exact hgo Pc.noConfusion (hex.dispatchMove id) ⟨hd, rfl, copied hpre hlt⟩
    rename_i hge
    cases hn
    have heq := hpre.eq_of_length (hpre.length_le.antisymm (not_lt.mp hge))
    subst heq
    exact hgo Pc.noConfusion (hex.dispatchMove id) hd
  · rename_i e snapshot
    cases hn
    obtain ⟨done, h1, h2⟩ := hf
    rw [hex.pc rfl] at hex
    refine hgo Pc.noConfusion (hex.dispatchLeave rfl) ⟨done, [], h1, ?_⟩
    rw [h2]
    exact (append_nil _).symm
  · rename_i e
    cases hn
    obtain ⟨done, called, h1, h2⟩ := hf
    refine hgo Pc.noConfusion (hex.dispatchMove id) ?_
    change b.passed = b.taken.flatMap due
    rw [h1, h2, append_nil, flatMap_append, flatMap_singleton]
  · rename_i e sub rest
    cases hn
    obtain ⟨done, called, h1, h2⟩ := hf
    refine hgo Pc.noConfusion (hex.dispatchMove id) ⟨done, called ++ [sub], ?_, ?_⟩
    · rw [h1, append_assoc]
      rfl
    · rw [h2, due_append, due_singleton]
      split
      · rw [append_assoc]
      · rw [append_nil]

theorem Inv.step (h : Inv b) {l : Label} (ht : NoTimeout b l) (hok : Undisturbed b l)
    (hn : next cfg b l = some b') : Inv b' := by
  unfold next at hn
  cases l with
  | init created =>
    cases hn
    exact h.init created
  | osInitialized | sealTable =>
    cases hn
    exact { h with }
  | post inIsr e =>
    cases hn
    unfold Bus.post
    split
    · exact h
    · exact h.postInternal e
  | postFromIsr e =>
    cases hn
    exact h.postInternal e
  | subscribe t inIsr sub =>
    dsimp only at hn
    split at hn
    · cases hn
    split at hn
    · cases hn
      exact h
    · cases hn
      refine { h with excl := h.excl.move fun hc => ?_ }
      cases hc
  | advance t => exact h.advance hok hn
  | start created =>
    obtain ⟨hs, ⟨⟩⟩ := ite_none_left_eq_some.mp hn
    exact h.start (Bool.not_eq_true _ ▸ hs) created
  | store =>
    obtain ⟨-, rfl⟩ := ite_some_none_eq_some.mp hn
    exact { h with handle := fun _ _ => rfl }
  | dispatch => exact h.dispatch hok hn
  | timeout t | dispatchTimeout => exact ht.elim

theorem events_delivered (cfg : BusCfg) {b : Bus}
    (h : ((system cfg).restrict fun b l => NoTimeout b l ∧ Undisturbed b l).Reachable b) :
    Delivers b := by
  have hinv : ((system cfg).restrict fun b l => NoTimeout b l ∧ Undisturbed b l).IsInvariant Inv := by
    refine ⟨fun b h0 => ?_, fun _ _ _ hs hn => hs.step hn.1.1 hn.1.2 hn.2⟩
    cases h0
    exact .fresh
  exact (hinv.holds h).delivers

instance (b : Bus) : (l : Label) → Decidable (Undisturbed b l)
  | .dispatch => match hpc : b.pc with
    | .test e => decidable_of_iff (b.starting = false)
      ⟨fun h _ _ => h, fun h => h e hpc⟩
    | .absent | .receive | .lock _ | .count _ | .copy .. | .unlock .. | .call .. | .exited =>
      .isTrue fun e he => by rw [hpc] at he; cases he
  | .advance t => match hc : b.calls t with
    | .write sub => decidable_of_iff (b.pc.uncopied = false)
      ⟨fun h _ _ => h, fun h => h sub hc⟩
    | .idle | .lock _ | .unlock => .isTrue fun sub he => by rw [hc] at he; cases he
  | .init _ | .osInitialized | .sealTable | .post .. | .postFromIsr _ | .subscribe .. | .start _
  | .store | .timeout _ | .dispatchTimeout => .isTrue trivial

def smallCfg : BusCfg := ⟨2, 1, fun _ => 0, by decide⟩

def range57 : Subscriber := ⟨5, 7, some 1, 0⟩

/-- An event posted before the start and one after it, the second for nobody. -/
theorem events_delivered_two :
    ∃ b, ((system smallCfg).restrict fun b l => NoTimeout b l ∧ Undisturbed b l).Reachable b ∧
      (b.posted = [⟨6, 1⟩, ⟨8, 2⟩] ∧ b.passed = [(⟨6, 1⟩, range57)] ∧ b.pc = .test ⟨8, 2⟩) ∧
        Delivers b := by
  obtain ⟨b, hb, hp⟩ := LTS.Reachable.of_execOk (· = fresh) (next smallCfg)
    (fun b l => NoTimeout b l ∧ Undisturbed b l) fresh
    [.init true, .osInitialized, .subscribe 0 false range57, .advance 0, .advance 0, .advance 0,
      .post false ⟨6, 1⟩, .start true, .store, .dispatch, .dispatch, .dispatch, .dispatch, .dispatch,
      .dispatch, .dispatch, .postFromIsr ⟨8, 2⟩, .dispatch, .dispatch, .dispatch]
    (fun b => b.posted = [⟨6, 1⟩, ⟨8, 2⟩] ∧ b.passed = [(⟨6, 1⟩, range57)] ∧ b.pc = .test ⟨8, 2⟩)
    rfl (by decide +kernel)
  exact ⟨b, hb, hp, events_delivered _ hb⟩

/-- The dispatch task runs before its handle is stored, finds none, and exits. -/
theorem dispatch_exits_at_start :
    ¬ ∀ (cfg : BusCfg) (b : Bus), ((system cfg).restrict NoTimeout).Reachable b → Delivers b := by
  intro h
  obtain ⟨b, hb, hp⟩ := LTS.Reachable.of_execOk (· = fresh) (next smallCfg) NoTimeout fresh
    [.init true, .osInitialized, .post false ⟨6, 1⟩, .start true, .dispatch, .dispatch, .store]
    (fun b => b.pc = .exited) rfl (by decide +kernel)
  exact (h smallCfg b hb).alive hp

end Bus

end MiniTree.EventBus
