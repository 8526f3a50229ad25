import MiniTree.Os.Queue

/-!
# The queue is a bounded FIFO

The message moves in one critical section of a call, so the order of `accepted` and of
`delivered` is the order in which the calls took effect. Between them the pool's slots hold
what is not delivered yet.

**Results.** `fifo_of_reachable`: in every run without a deletion of the queue the delivered
messages are a prefix of the accepted ones, the slots hold the rest, `depth` counts it, and
every finished call did what it reported: one that did not return `MINI_OS_OK` neither put a
message in nor took one out.
-/

namespace MiniTree.Os

open MiniTree.Core Function List Nat Option
open Prod (snd ext fst)

/-! ## The pool as a ring of messages -/

namespace MsgQueue

def slots (q : MsgQueue) (i : Nat) : Bytes := copyFrom q.pool (q.slotAt i) q.msgSize

/-- The messages in the queue, the oldest first. -/
def contents (q : MsgQueue) : List Bytes := window q.slots q.maxDepth q.readIdx q.depth

structure Ok (q : MsgQueue) : Prop where
  maxDepth_pos : 0 < q.maxDepth
  depth_le : q.depth ≤ q.maxDepth
  readIdx_lt : q.readIdx < q.maxDepth
  writeIdx_eq : q.writeIdx = (q.readIdx + q.depth) % q.maxDepth

variable {q : MsgQueue} {msg : Bytes}

theorem nextIdx_eq {i : Nat} (h : i < q.maxDepth) : q.nextIdx i = (i + 1) % q.maxDepth := by
  unfold nextIdx
  split
  · rw [show i + 1 = q.maxDepth by omega, mod_self]
  · rw [mod_eq_of_lt (by omega)]

theorem Ok.writeIdx_lt (h : q.Ok) : q.writeIdx < q.maxDepth := by
  rw [h.writeIdx_eq]
  exact mod_lt _ h.maxDepth_pos

/-- A message goes into its own slot and no other. -/
theorem slots_put (hmsg : msg.length = q.msgSize) :
    (q.put msg).slots = copyTo q.slots q.writeIdx [msg] := by
  funext i
  show copyFrom (copyTo q.pool (q.slotAt q.writeIdx) msg) (i * q.msgSize) q.msgSize = _
  rcases lt_trichotomy i q.writeIdx with hi | rfl | hi
  · rw [copyTo_of_lt hi]
    apply map_congr_left
    intro j hj
    have hj := mem_range.mp hj
    have hle : (i + 1) * q.msgSize ≤ q.writeIdx * q.msgSize := Nat.mul_le_mul_right _ hi
    rw [succ_mul] at hle
    exact copyTo_of_lt (show i * q.msgSize + j < q.writeIdx * q.msgSize by omega)
  · have hself : copyTo q.slots q.writeIdx [msg] q.writeIdx = msg := copyTo_add (i := 0) (by simp)
    rw [hself]
    apply ext_getElem
    · rw [copyFrom_length, hmsg]
    · intro j hj hj'
      simp only [copyFrom, getElem_map, getElem_range]
      exact copyTo_add hj'
  · rw [copyTo_of_ge (show q.writeIdx + [msg].length ≤ i from hi)]
    apply map_congr_left
    intro j hj
    have hle : (q.writeIdx + 1) * q.msgSize ≤ i * q.msgSize := Nat.mul_le_mul_right _ hi
    rw [succ_mul] at hle
    exact copyTo_of_ge (show q.writeIdx * q.msgSize + msg.length ≤ i * q.msgSize + j by omega)

theorem contents_put (h : q.Ok) (hmsg : msg.length = q.msgSize)
    (hroom : q.depth < q.maxDepth) : (q.put msg).contents = q.contents ++ [msg] := by
  have hwrite : (q.put msg).slots =
      ringWrite q.slots q.maxDepth ((q.readIdx + q.depth) % q.maxDepth) [msg] := by
    have hlt := h.writeIdx_lt
    rw [slots_put hmsg, ← h.writeIdx_eq, ringWrite, if_pos (by simp; omega)]
  show window (q.put msg).slots q.maxDepth q.readIdx (q.depth + 1) = _
  rw [hwrite]
  exact window_ringWrite h.maxDepth_pos hroom

theorem Ok.put (h : q.Ok) (msg : Bytes) (hroom : q.depth < q.maxDepth) : (q.put msg).Ok where
  maxDepth_pos := h.maxDepth_pos
  depth_le := hroom
  readIdx_lt := h.readIdx_lt
  writeIdx_eq := by
    show q.nextIdx q.writeIdx = (q.readIdx + (q.depth + 1)) % q.maxDepth
    rw [nextIdx_eq h.writeIdx_lt, h.writeIdx_eq, mod_add_mod, add_assoc]

theorem contents_drop (h : q.Ok) (hpos : 0 < q.depth) : q.contents = q.front :: q.drop.contents := by
  obtain ⟨n, hn⟩ := exists_eq_succ_of_ne_zero hpos.ne'
  have hfront : window q.slots q.maxDepth q.readIdx 1 = [q.front] := by
    rw [window_eq_copyFrom _ (by have := h.readIdx_lt; omega)]
    rfl
  have hrest : window q.slots q.maxDepth (q.readIdx + 1) n = q.drop.contents := by
    show _ = window q.slots q.maxDepth (q.nextIdx q.readIdx) (q.depth - 1)
    rw [nextIdx_eq h.readIdx_lt, hn, succ_sub_one]
    exact window_start (mod_modEq _ _).symm
  unfold contents
  rw [hn, succ_eq_one_add, window_add, hfront, hrest]
  rfl

theorem Ok.drop (h : q.Ok) (hpos : 0 < q.depth) : q.drop.Ok where
  maxDepth_pos := h.maxDepth_pos
  depth_le := le_trans (sub_le ..) h.depth_le
  readIdx_lt := by
    show q.nextIdx q.readIdx < q.maxDepth
    rw [nextIdx_eq h.readIdx_lt]
    exact mod_lt _ h.maxDepth_pos
  writeIdx_eq := by
    show q.writeIdx = (q.nextIdx q.readIdx + (q.depth - 1)) % q.maxDepth
    rw [nextIdx_eq h.readIdx_lt, h.writeIdx_eq, mod_add_mod]
    congr 1
    omega

end MsgQueue

namespace QueueSys

/-! ## What the property says -/

def putBy (s : QueueSys) (c : CallId) : List Bytes :=
  (s.accepted.filter fun e => e.1 = c).map snd

def takenBy (s : QueueSys) (c : CallId) : List Bytes :=
  (s.delivered.filter fun e => e.1 = c).map snd

/-- A send that returns `MINI_OS_OK` put its message in, a receive took out what its buffer
holds; nothing else moved. -/
def Effect (s : QueueSys) (c : CallId) (op : QueueOp) (ret : Err) (out : Bytes) : Prop :=
  match op, ret with
  | .send msg, .ok => s.putBy c = [msg] ∧ s.takenBy c = []
  | .receive, .ok => s.putBy c = [] ∧ s.takenBy c = [out]
  | _, _ => s.putBy c = [] ∧ s.takenBy c = []

structure Fifo (s : QueueSys) : Prop where
  delivered_prefix : s.delivered.map snd <+: s.accepted.map snd
  depth_eq : s.accepted.length = s.delivered.length + s.q.depth
  depth_le : s.q.depth ≤ s.q.maxDepth
  contents_eq : s.delivered.map snd ++ s.q.contents = s.accepted.map snd
  effect : ∀ r ∈ s.returns, s.Effect r.call r.op r.ret r.out

def NotDeleted (_ : QueueSys) (l : Label) : Prop := ∀ isStatic, l ≠ .delete isStatic

instance (s : QueueSys) (l : Label) : Decidable (NotDeleted s l) := by
  cases l with
  | delete isStatic => exact .isFalse fun h => h isStatic rfl
  | _ => exact .isTrue fun _ h => by cases h

/-! ## Steps that move no message -/

/-- The messages and their history are the same; the object header may differ. -/
structure SameData (s s' : QueueSys) : Prop where
  q_eq : s'.q = { s.q with obj := s'.q.obj }
  accepted_eq : s'.accepted = s.accepted
  delivered_eq : s'.delivered = s.delivered

structure Stored (s : QueueSys) : Prop where
  ok : s.q.Ok
  contents_eq : s.delivered.map snd ++ s.q.contents = s.accepted.map snd

variable {s s' : QueueSys} {op : QueueOp} {t : Tid}

theorem Stored.same (h : Stored s) (hs : SameData s s') : Stored s' := by
  have hq := hs.q_eq
  generalize s'.q.obj = obj at hq
  refine ⟨?_, ?_⟩
  · rw [hq]
    exact { h.ok with }
  · rw [hs.accepted_eq, hs.delivered_eq, hq]
    exact h.contents_eq

/-- What a call has done so far, by where it stands. -/
def FactsAt (s : QueueSys) (c : CallId) : QueuePc → Prop
  | .idle => True
  | .entered op _ _ | .loop op _ _ _ | .parked op _ _ =>
    s.Fits op ∧ s.putBy c = [] ∧ s.takenBy c = []
  | .leave op ret out | .release op ret out => s.Effect c op ret out

def CallFacts (s : QueueSys) (t : Tid) : Prop := s.FactsAt (s.call (.thread t)) (s.pc t)

structure Calls (s : QueueSys) : Prop where
  facts : ∀ t, CallFacts s t
  accepted_old : ∀ e ∈ s.accepted, e.1.2 ≤ s.nth e.1.1
  delivered_old : ∀ e ∈ s.delivered, e.1.2 ≤ s.nth e.1.1
  effect : ∀ r ∈ s.returns, s.Effect r.call r.op r.ret r.out
  returns_old : ∀ r ∈ s.returns, r.call.2 ≤ s.nth r.call.1
  returns_done : ∀ r ∈ s.returns, ∀ t, r.call = s.call (.thread t) → s.pc t = .idle

theorem Effect.congr {c : CallId} {ret : Err} {out : Bytes} (h : s.Effect c op ret out)
    (hp : s'.putBy c = s.putBy c) (ht : s'.takenBy c = s.takenBy c) : s'.Effect c op ret out := by
  unfold Effect at h ⊢
  rw [hp, ht]
  exact h

theorem Fits.congr (h : s.Fits op) (hsize : s'.q.msgSize = s.q.msgSize) : s'.Fits op := by
  cases op with
  | send msg => exact Eq.trans h hsize.symm
  | receive => trivial

theorem CallFacts.frame (h : CallFacts s t) (hpc : s'.pc t = s.pc t)
    (hsize : s'.q.msgSize = s.q.msgSize) (hcall : s'.call (.thread t) = s.call (.thread t))
    (hp : s'.putBy (s.call (.thread t)) = s.putBy (s.call (.thread t)))
    (ht : s'.takenBy (s.call (.thread t)) = s.takenBy (s.call (.thread t))) : CallFacts s' t := by
  unfold CallFacts at h ⊢
  rw [hpc, hcall]
  cases hs : s.pc t with
  | idle => trivial
  | entered op _ _ | loop op _ _ _ | parked op _ _ =>
    rw [hs] at h
    exact ⟨h.1.congr hsize, hp ▸ h.2.1, ht ▸ h.2.2⟩
  | leave op ret out | release op ret out =>
    rw [hs] at h
    exact Effect.congr h hp ht

theorem SameData.putBy (h : SameData s s') (c : CallId) : s'.putBy c = s.putBy c := by
  unfold QueueSys.putBy
  rw [h.accepted_eq]

theorem SameData.takenBy (h : SameData s s') (c : CallId) : s'.takenBy c = s.takenBy c := by
  unfold QueueSys.takenBy
  rw [h.delivered_eq]

theorem SameData.msgSize (h : SameData s s') : s'.q.msgSize = s.q.msgSize := by rw [h.q_eq]

/-- The step ends no call; what the calls did is given. -/
theorem Calls.frame (h : Calls s) (hd : SameData s s') (hn : s'.nth = s.nth)
    (hr : s'.returns = s.returns) (hf : ∀ u, CallFacts s' u)
    (hdone : ∀ r ∈ s.returns, ∀ u, r.call = s.call (.thread u) → s'.pc u = .idle) : Calls s' where
  facts := hf
  accepted_old := by rw [hd.accepted_eq, hn]; exact h.accepted_old
  delivered_old := by rw [hd.delivered_eq, hn]; exact h.delivered_old
  effect r hm := (h.effect r (hr ▸ hm)).congr (hd.putBy _) (hd.takenBy _)
  returns_old := by rw [hr, hn]; exact h.returns_old
  returns_done := by
    unfold call
    rw [hr, hn]
    exact hdone

/-- The call `t` is in moves on to `p`, where its facts are given. -/
theorem Calls.move {p : QueuePc} (h : Calls s) (hd : SameData s s') (hn : s'.nth = s.nth)
    (hr : s'.returns = s.returns) (hpc : s'.pc = update s.pc t p)
    (hnot : ∀ r ∈ s.returns, r.call ≠ s.call (.thread t))
    (hf : s'.FactsAt (s'.call (.thread t)) p) : Calls s' := by
  have hself : s'.pc t = p := by rw [hpc, update_self]
  have hpc : ∀ u ≠ t, s'.pc u = s.pc u := fun u hu => by rw [hpc, update_of_ne hu]
  refine h.frame hd hn hr (fun u => ?_) fun r hm u hu => ?_
  · by_cases hut : u = t
    · subst hut hself
      exact hf
    · exact (h.facts u).frame (hpc u hut) hd.msgSize (by unfold call; rw [hn]) (hd.putBy _)
        (hd.takenBy _)
  · by_cases hut : u = t
    · exact absurd (hut ▸ hu) (hnot r hm)
    · rw [hpc u hut]
      exact h.returns_done r hm u hu

/-- The step writes no program counter. -/
theorem Calls.keep (h : Calls s) (hd : SameData s s') (hn : s'.nth = s.nth)
    (hr : s'.returns = s.returns) (hpc : s'.pc = s.pc) : Calls s' :=
  h.frame hd hn hr (fun u => (h.facts u).frame (by rw [hpc]) hd.msgSize (by unfold call; rw [hn])
    (hd.putBy _) (hd.takenBy _)) (hpc ▸ h.returns_done)

/-! ## Naming and reporting calls -/

theorem le_nth_next (s : QueueSys) (c d : Caller) : s.nth d ≤ (s.nextCall c).nth d := by
  simp only [nextCall, update_apply]
  grind

theorem nextCall_call_self (s : QueueSys) (c : Caller) : (s.nextCall c).call c = (c, s.nth c + 1) :=
  ext rfl (update_self ..)

theorem nextCall_call_of_ne (s : QueueSys) {c d : Caller} (h : d ≠ c) :
    (s.nextCall c).call d = s.call d :=
  ext rfl (update_of_ne h ..)

/-- A caller outside a call starts the next one. -/
theorem Calls.nextCall {c : Caller} (h : Calls s)
    (hc : ∀ t, c = .thread t → s.pc t = .idle) : Calls (s.nextCall c) where
  facts u := by
    by_cases hu : .thread u = c
    · unfold CallFacts
      rw [show (s.nextCall c).pc u = .idle from hc u hu.symm]
      trivial
    · exact (h.facts u).frame rfl rfl (nextCall_call_of_ne s hu) rfl rfl
  accepted_old e he := le_trans (h.accepted_old e he) (le_nth_next ..)
  delivered_old e he := le_trans (h.delivered_old e he) (le_nth_next ..)
  effect := h.effect
  returns_old r hr := le_trans (h.returns_old r hr) (le_nth_next ..)
  returns_done r hr u hu := by
    by_cases hut : .thread u = c
    · exact hc u hut.symm
    · rw [nextCall_call_of_ne s hut] at hu
      exact h.returns_done r hr u hu

theorem Calls.fresh (h : Calls s) (c : Caller) :
    s.putBy ((s.nextCall c).call c) = [] ∧ s.takenBy ((s.nextCall c).call c) = [] ∧
      ∀ r ∈ s.returns, r.call ≠ (s.nextCall c).call c := by
  have hold : ∀ d : CallId, d.2 ≤ s.nth d.1 → d ≠ (s.nextCall c).call c := by
    intro d hd he
    rw [he, nextCall_call_self] at hd
    exact not_succ_le_self _ hd
  refine ⟨?_, ?_, fun r hr => hold _ (h.returns_old r hr)⟩
  · unfold putBy
    rw [filter_eq_nil_iff.mpr fun e he => by simpa using hold _ (h.accepted_old e he)]
    rfl
  · unfold takenBy
    rw [filter_eq_nil_iff.mpr fun e he => by simpa using hold _ (h.delivered_old e he)]
    rfl

/-- A call ends and its report is right. -/
theorem Calls.report {c : Caller} {ret : Err} {out : Bytes}
    (h : Calls s) (hc : ∀ t, c = .thread t → s.pc t = .idle)
    (he : s.Effect (s.call c) op ret out) : Calls (s.report c op ret out) where
  facts u := (h.facts u).frame rfl rfl rfl rfl rfl
  accepted_old := h.accepted_old
  delivered_old := h.delivered_old
  effect := forall_mem_append.mpr ⟨h.effect, forall_mem_singleton.mpr he⟩
  returns_old := forall_mem_append.mpr ⟨h.returns_old, forall_mem_singleton.mpr (le_refl _)⟩
  returns_done := forall_mem_append.mpr
    ⟨h.returns_done, forall_mem_singleton.mpr fun u hu => hc u (congrArg fst hu)⟩

theorem Calls.not_returned (h : Calls s) (hp : s.pc t ≠ .idle) :
    ∀ r ∈ s.returns, r.call ≠ s.call (.thread t) :=
  fun r hr he => hp (h.returns_done r hr t he)

/-- Without `MINI_OS_OK` nothing moved. -/
theorem effect_of_ne_ok {c : CallId} (op : QueueOp) {ret : Err} (out : Bytes)
    (hret : ret ≠ .ok) (hp : s.putBy c = []) (ht : s.takenBy c = []) : s.Effect c op ret out := by
  unfold Effect
  split <;> simp_all

/-! ## Moving a message -/

section WakeOne

variable (s : QueueSys) (i : Side)

@[simp] theorem wakeOne_same : (s.wakeOne i).q = s.q ∧ (s.wakeOne i).accepted = s.accepted ∧
    (s.wakeOne i).delivered = s.delivered ∧ (s.wakeOne i).pc = s.pc ∧ (s.wakeOne i).nth = s.nth ∧
    (s.wakeOne i).returns = s.returns := by
  unfold wakeOne
  split <;> simp

end WakeOne

section Perform

variable {c : Caller} {d : CallId}

@[simp] theorem perform_same : (s.perform c op).2.pc = s.pc ∧ (s.perform c op).2.nth = s.nth ∧
    (s.perform c op).2.returns = s.returns ∧ (s.perform c op).2.q.msgSize = s.q.msgSize ∧
    (s.perform c op).2.q.obj = s.q.obj := by
  cases op <;> simp [perform, MsgQueue.put, MsgQueue.drop]

theorem perform_call (d : Caller) : (s.perform c op).2.call d = s.call d := by
  simp [call]

theorem perform_putBy_of_ne (h : d ≠ s.call c) : (s.perform c op).2.putBy d = s.putBy d := by
  cases op <;> simp [perform, putBy, filter_append, Ne.symm h]

theorem perform_takenBy_of_ne (h : d ≠ s.call c) : (s.perform c op).2.takenBy d = s.takenBy d := by
  cases op <;> simp [perform, takenBy, filter_append, Ne.symm h]

/-- A call that has moved nothing yet does its operation. -/
theorem perform_effect (hp : s.putBy (s.call c) = []) (ht : s.takenBy (s.call c) = []) :
    (s.perform c op).2.Effect (s.call c) op .ok (s.perform c op).1 := by
  unfold putBy at hp
  unfold takenBy at ht
  cases op <;> simp [Effect, perform, putBy, takenBy, hp, ht]

theorem perform_accepted_old (h : ∀ e ∈ s.accepted, e.1.2 ≤ s.nth e.1.1) :
    ∀ e ∈ (s.perform c op).2.accepted, e.1.2 ≤ s.nth e.1.1 := by
  cases op <;> simp only [perform, wakeOne_same]
  · simpa [or_imp, forall_and, call] using h
  · exact h

theorem perform_delivered_old (h : ∀ e ∈ s.delivered, e.1.2 ≤ s.nth e.1.1) :
    ∀ e ∈ (s.perform c op).2.delivered, e.1.2 ≤ s.nth e.1.1 := by
  cases op <;> simp only [perform, wakeOne_same]
  · exact h
  · simpa [or_imp, forall_and, call] using h

theorem Stored.perform (h : Stored s) (hready : s.q.Ready op) (hfits : s.Fits op) :
    Stored (s.perform c op).2 := by
  cases op with
  | send msg =>
    refine ⟨by simpa [QueueSys.perform] using h.ok.put msg hready, ?_⟩
    simp only [QueueSys.perform, wakeOne_same, map_append, map_cons, map_nil]
    rw [MsgQueue.contents_put h.ok hfits hready, ← append_assoc, h.contents_eq]
  | receive =>
    refine ⟨by simpa [QueueSys.perform] using h.ok.drop hready, ?_⟩
    simp only [QueueSys.perform, wakeOne_same, map_append, map_cons, map_nil]
    rw [← h.contents_eq, MsgQueue.contents_drop h.ok hready, append_assoc]
    rfl

/-- The operation of an interrupt, seen by all the calls under way. -/
theorem Calls.perform (h : Calls s) (hc : ∀ t, c = .thread t → s.pc t = .idle)
    (hnot : ∀ r ∈ s.returns, r.call ≠ s.call c) : Calls (s.perform c op).2 where
  facts u := by
    by_cases hu : .thread u = c
    · unfold CallFacts
      simp only [perform_same, hc u hu.symm]
      trivial
    · have hne : s.call (.thread u) ≠ s.call c := fun he => hu (congrArg fst he)
      exact (h.facts u).frame (by simp) (by simp) (perform_call _)
        (perform_putBy_of_ne hne) (perform_takenBy_of_ne hne)
  accepted_old := by simpa using perform_accepted_old h.accepted_old
  delivered_old := by simpa using perform_delivered_old h.delivered_old
  effect r hr := by
    simp only [perform_same] at hr
    exact (h.effect r hr).congr (perform_putBy_of_ne (hnot r hr)) (perform_takenBy_of_ne (hnot r hr))
  returns_old := by simpa using h.returns_old
  returns_done := by simpa [perform_call] using h.returns_done

/-- The program counters have no part in the operation. -/
theorem perform_setPc (t : Tid) (p : QueuePc) :
    (s.setPc t p).perform c op = ((s.perform c op).1, (s.perform c op).2.setPc t p) := by
  cases op <;> simp only [QueueSys.perform, wakeOne, setPc] <;> split <;> rfl

end Perform

theorem setPc_pc_self (s : QueueSys) (t : Tid) (p : QueuePc) : (s.setPc t p).pc t = p :=
  update_self ..

theorem setPc_pc_of_ne (s : QueueSys) {u : Tid} (p : QueuePc) (h : u ≠ t) :
    (s.setPc t p).pc u = s.pc u :=
  update_of_ne h ..

theorem setPc_setPc (s : QueueSys) (t : Tid) (p p' : QueuePc) :
    (s.setPc t p).setPc t p' = s.setPc t p' := by simp [setPc]

/-! ## The steps -/

section
variable (h : s.q.obj.destroy = false)
include h

/-- Without a destroy request a release is a decrement. -/
theorem objRelease_of_alive :
    s.objRelease = { s with q := { s.q with obj := objDrop s.q.obj } } := by
  unfold objRelease
  rw [if_neg]
  simp [objDrop, h]

theorem releasePool_of_alive : s.releasePool = s := by
  rw [releasePool, if_neg (by rw [h]; simp)]

theorem callBegin_of_alive {timeout : UInt32} {inThread : Bool} :
    s.callBegin t op timeout inThread = { s.nextCall (.thread t) with
      q.obj.ref := (s.q.obj.ref + 1) % 256 }.setPc t (.entered op timeout inThread) := by
  have hacq : objAcquire s.q.obj = (.ok, { s.q.obj with ref := (s.q.obj.ref + 1) % 256 }) := by
    rw [objAcquire, if_neg (by rw [h]; simp)]
  unfold callBegin
  dsimp only
  rw [show objAcquire (s.nextCall (.thread t)).q.obj = _ from hacq]
  rfl

end

/-- What holds in every state of a run without a deletion of the queue. -/
structure FifoInv (s : QueueSys) : Prop where
  stored : Stored s
  calls : Calls s
  alive : s.q.obj.destroy = false

section Steps

/-- A step that moves no message and ends no call. -/
theorem FifoInv.keep (h : FifoInv s) (hd : SameData s s') (hn : s'.nth = s.nth)
    (hr : s'.returns = s.returns) (hpc : s'.pc = s.pc) (ho : s'.q.obj.destroy = false) : FifoInv s' :=
  ⟨h.stored.same hd, h.calls.keep hd hn hr hpc, ho⟩

variable {p : QueuePc} {timeout deadline : UInt32}

/-- A step of the call `t` is in that moves no message; `p` is where the call stands then. -/
theorem FifoInv.move (h : FifoInv s) (hd : SameData s s')
    (hn : s'.nth = s.nth) (hr : s'.returns = s.returns)
    (hpc : s'.pc = update s.pc t p) (ho : s'.q.obj.destroy = false)
    (hnot : ∀ r ∈ s.returns, r.call ≠ s.call (.thread t))
    (hf : s'.FactsAt (s'.call (.thread t)) p) : FifoInv s' :=
  ⟨h.stored.same hd, h.calls.move hd hn hr hpc hnot hf, ho⟩

section
variable {ret : Err} {out : Bytes} {inThread : Bool} (h : FifoInv s)
include h

namespace FifoInv

theorem factsAt (hp : s.pc t = p) : s.FactsAt (s.call (.thread t)) p := by
  subst hp
  exact h.calls.facts t

theorem callBegin (hp : s.pc t = .idle) (hfits : s.Fits op) (timeout : UInt32) (inThread : Bool) :
    FifoInv (s.callBegin t op timeout inThread) := by
  have hn : FifoInv (s.nextCall (.thread t)) :=
    ⟨h.stored.same ⟨rfl, rfl, rfl⟩, h.calls.nextCall (by rintro u ⟨⟩; exact hp), h.alive⟩
  obtain ⟨hput, htaken, hnot⟩ := h.calls.fresh (.thread t)
  rw [callBegin_of_alive h.alive]
  exact hn.move ⟨rfl, rfl, rfl⟩ rfl rfl rfl h.alive hnot ⟨hfits.congr rfl, hput, htaken⟩

theorem callDeadline (hp : s.pc t = .entered op timeout inThread) :
    FifoInv (s.callDeadline t op timeout inThread) := by
  have hf := h.factsAt hp
  exact h.move ⟨rfl, rfl, rfl⟩ rfl rfl rfl h.alive (h.calls.not_returned (by rw [hp]; simp))
    ⟨hf.1.congr rfl, hf.2⟩

section
variable (hf : s.putBy (s.call (.thread t)) = [] ∧ s.takenBy (s.call (.thread t)) = [])
  (hnot : ∀ r ∈ s.returns, r.call ≠ s.call (.thread t))
include hf hnot

/-- A pass of the loop that ends the call without `MINI_OS_OK`. -/
theorem fail (hret : ret ≠ .ok) : FifoInv (s.setPc t (.leave op ret [])) :=
  h.move ⟨rfl, rfl, rfl⟩ rfl rfl rfl h.alive hnot
    (effect_of_ne_ok op [] hret hf.1 hf.2)

theorem callPark (hfits : s.Fits op) (timeout deadline ticks : UInt32) :
    FifoInv (s.callPark t op timeout deadline ticks) :=
  h.move ⟨rfl, rfl, rfl⟩ rfl rfl rfl h.alive hnot ⟨hfits.congr rfl, hf⟩

theorem performed (hfits : s.Fits op) (hready : s.q.Ready op) :
    FifoInv ((s.perform (.thread t) op).2.setPc t (.leave op .ok (s.perform (.thread t) op).1)) := by
  -- the thread's own facts are set aside while its message moves
  have hidle : FifoInv (s.setPc t .idle) :=
    h.move ⟨rfl, rfl, rfl⟩ rfl rfl rfl h.alive hnot trivial
  have hcalls : Calls ((s.perform (.thread t) op).2.setPc t .idle) := by
    have hperf : Calls ((s.setPc t .idle).perform (.thread t) op).2 :=
      hidle.calls.perform (by rintro u ⟨⟩; exact setPc_pc_self ..) hnot
    rwa [perform_setPc] at hperf
  have halive : (s.perform (.thread t) op).2.q.obj.destroy = false := by
    simpa using h.alive
  have hinv : FifoInv ((s.perform (.thread t) op).2.setPc t .idle) :=
    ⟨(h.stored.perform hready hfits).same ⟨rfl, rfl, rfl⟩, hcalls, halive⟩
  rw [← setPc_setPc _ t .idle]
  refine hinv.move ⟨rfl, rfl, rfl⟩ rfl rfl rfl halive ?_ ?_
  · show ∀ r ∈ (s.perform (.thread t) op).2.returns, r.call ≠ (s.perform (.thread t) op).2.call _
    rw [perform_same.2.2.1, perform_call]
    exact hnot
  · show (s.perform (.thread t) op).2.Effect ((s.perform (.thread t) op).2.call (.thread t)) _ _ _
    rw [perform_call]
    exact perform_effect hf.1 hf.2

end

theorem callLoop (hp : s.pc t = .loop op timeout deadline inThread) :
    FifoInv (s.callLoop t op timeout deadline inThread) := by
  obtain ⟨hfits, hf⟩ := h.factsAt hp
  have hnot := h.calls.not_returned (by rw [hp]; simp)
  have hr : FifoInv (s.rerun t) := h.keep ⟨rfl, rfl, rfl⟩ rfl rfl rfl h.alive
  have hfits' : (s.rerun t).Fits op := hfits.congr rfl
  exact callLoop_cases s t op (fun _ hret _ => hr.fail hf hnot hret) (hr.performed hf hnot hfits')
    fun _ => hr.callPark hf hnot hfits' timeout deadline

theorem callUnparked (hp : s.pc t = .parked op timeout deadline) :
    FifoInv (s.callUnparked t op timeout deadline) := by
  obtain ⟨hfits, hf⟩ := h.factsAt hp
  refine h.move ⟨rfl, rfl, rfl⟩ rfl rfl rfl h.alive (h.calls.not_returned (by rw [hp]; simp)) ?_
  split
  · exact ⟨hfits.congr rfl, hf⟩
  · exact effect_of_ne_ok op [] (by simp) hf.1 hf.2

theorem callLeave (hp : s.pc t = .leave op ret out) : FifoInv (s.callLeave t op ret out) := by
  have hf := h.factsAt hp
  unfold QueueSys.callLeave
  rw [releasePool_of_alive h.alive]
  exact h.move ⟨rfl, rfl, rfl⟩ rfl rfl rfl h.alive (h.calls.not_returned (by rw [hp]; simp)) hf

end FifoInv

end

theorem FifoInv.callEnd {ret : Err} {out : Bytes} (h : FifoInv s)
    (hp : s.pc t = .release op ret out) : FifoInv (s.callEnd t op ret out) := by
  have hf := h.factsAt hp
  have hidle : FifoInv ({ s.objRelease with checked := s.checked.erase t }.setPc t .idle) := by
    rw [objRelease_of_alive h.alive]
    exact h.move ⟨rfl, rfl, rfl⟩ rfl rfl rfl h.alive (h.calls.not_returned (by rw [hp]; simp)) trivial
  refine ⟨hidle.stored.same ⟨rfl, rfl, rfl⟩, hidle.calls.report ?_ ?_, hidle.alive⟩
  · rintro u ⟨⟩
    exact setPc_pc_self ..
  · rw [objRelease_of_alive h.alive]
    exact hf

theorem FifoInv.isrCall (h : FifoInv s) (hfits : s.Fits op) : FifoInv (s.isrCall op) := by
  have hno : ∀ t, Caller.isr = .thread t → s.pc t = .idle := by rintro t ⟨⟩
  have hn : FifoInv (s.nextCall .isr) :=
    ⟨h.stored.same ⟨rfl, rfl, rfl⟩, h.calls.nextCall hno, h.alive⟩
  obtain ⟨hput, htaken, hnot⟩ := h.calls.fresh .isr
  unfold QueueSys.isrCall
  dsimp only
  split
  · rename_i hready
    refine ⟨(hn.stored.perform hready (hfits.congr rfl)).same ⟨rfl, rfl, rfl⟩,
      (hn.calls.perform hno hnot).report (by rintro t ⟨⟩) ?_, ?_⟩
    · rw [perform_call]
      exact perform_effect hput htaken
    · show ((s.nextCall .isr).perform .isr op).2.q.obj.destroy = false
      simp only [perform_same]
      exact h.alive
  · exact ⟨hn.stored.same ⟨rfl, rfl, rfl⟩,
      hn.calls.report hno (effect_of_ne_ok op [] (by simp) hput htaken), h.alive⟩

theorem FifoInv.deleteThread (h : FifoInv s) (t : Tid) : FifoInv (s.deleteThread t) := by
  unfold QueueSys.deleteThread
  dsimp only
  split
  · rw [objRelease_of_alive (s := { s with waits := s.waits.delete t }) h.alive]
    exact h.keep ⟨rfl, rfl, rfl⟩ rfl rfl rfl h.alive
  · exact h.keep ⟨rfl, rfl, rfl⟩ rfl rfl rfl h.alive

end Steps

/-! ## Runs -/

theorem FifoInv.begin {timeout : UInt32}
    {inThread : Bool} (h : FifoInv s) (hs : s.begin t op timeout inThread = some s') : FifoInv s' := by
  obtain ⟨hg, rfl⟩ := ite_some_none_eq_some.mp hs
  exact h.callBegin hg.1 hg.2.2.1 timeout inThread

theorem FifoInv.advance (h : FifoInv s) (hs : s.advance t = some s') : FifoInv s' := by
  obtain ⟨-, hs⟩ := ite_none_right_eq_some.mp hs
  cases hp : s.pc t <;> rw [hp] at hs <;> cases hs
  case entered => exact h.callDeadline hp
  case loop => exact h.callLoop hp
  case parked => exact h.callUnparked hp
  case leave => exact h.callLeave hp
  case release => exact h.callEnd hp

theorem FifoInv.isr (h : FifoInv s) (hs : s.isr op = some s') : FifoInv s' := by
  obtain ⟨hg, rfl⟩ := ite_some_none_eq_some.mp hs
  exact h.isrCall hg.1

theorem fifoInv_init {msgSize depth : Nat} {pool : Nat → UInt8} {heapOwned : Bool}
    (hs : queueCreate msgSize depth pool heapOwned = some s) : FifoInv s := by
  obtain ⟨hne, ⟨⟩⟩ := ite_none_left_eq_some.mp hs
  have hdepth : 0 < depth := by omega
  exact
    { stored := ⟨⟨hdepth, zero_le _, hdepth, (zero_mod _).symm⟩, rfl⟩
      calls := by constructor <;> simp [CallFacts, FactsAt]
      alive := rfl }

theorem fifoInv_isInvariant (msgSize depth : Nat) (pool : Nat → UInt8) (heapOwned : Bool) :
    ((queue msgSize depth pool heapOwned).restrict NotDeleted).IsInvariant FifoInv where
  init s hs := fifoInv_init hs
  step s l s' h hs := by
    obtain ⟨hok, hs⟩ := hs
    change step s l = some s' at hs
    cases l with
    | send | receive => exact h.begin hs
    | cs t => exact h.advance hs
    | sendIsr | receiveIsr => exact h.isr hs
    | tick | suspend | resume | enableKill =>
      cases hs
      exact h.keep ⟨rfl, rfl, rfl⟩ rfl rfl rfl h.alive
    | deleteThread t =>
      obtain ⟨-, ⟨⟩⟩ := ite_none_left_eq_some.mp hs
      exact h.deleteThread t
    | delete isStatic => exact absurd rfl (hok isStatic)

/-! ## The order of effects is the order of the calls -/

/-- The histories only grow at the end, so a call that begins after another one has returned
takes effect after it. -/
structure Grows (s s' : QueueSys) : Prop where
  accepted : s.accepted <+: s'.accepted
  delivered : s.delivered <+: s'.delivered
  returns : s.returns <+: s'.returns

theorem Grows.of_eq (ha : s'.accepted = s.accepted)
    (hd : s'.delivered = s.delivered) (hr : s'.returns = s.returns) : Grows s s' := by
  constructor
  · rw [ha]
  · rw [hd]
  · rw [hr]

theorem Grows.report (h : Grows s s') (c : Caller) (op : QueueOp) (ret : Err)
    (out : Bytes) : Grows s (s'.report c op ret out) :=
  { h with returns := h.returns.trans (prefix_append ..) }

theorem grows_perform (s : QueueSys) (c : Caller) (op : QueueOp) : Grows s (s.perform c op).2 := by
  cases op with
  | send msg | receive => constructor <;> simp [perform]

theorem grows_objRelease (s : QueueSys) : Grows s s.objRelease := by
  unfold objRelease freeStorage
  dsimp only
  split
  · split <;> exact .of_eq rfl rfl rfl
  · exact .of_eq rfl rfl rfl

theorem grows_callLoop (s : QueueSys) (t : Tid) (op : QueueOp) (timeout deadline : UInt32)
    (inThread : Bool) : Grows s (s.callLoop t op timeout deadline inThread) := by
  have hp := grows_perform (s.rerun t) (.thread t) op
  exact callLoop_cases s t op (fun _ _ _ => .of_eq rfl rfl rfl) (fun _ => { hp with })
    fun _ _ => .of_eq rfl rfl rfl

theorem grows_begin {timeout : UInt32} {inThread : Bool}
    (hs : s.begin t op timeout inThread = some s') : Grows s s' := by
  obtain ⟨-, rfl⟩ := ite_some_none_eq_some.mp hs
  unfold callBegin
  dsimp only
  split
  · exact .of_eq rfl rfl rfl
  · have hn : Grows s (s.nextCall (.thread t)) := .of_eq rfl rfl rfl
    exact hn.report ..

theorem grows_advance (hs : s.advance t = some s') : Grows s s' := by
  obtain ⟨-, hs⟩ := ite_none_right_eq_some.mp hs
  cases hp : s.pc t <;> rw [hp] at hs <;> cases hs
  case entered => exact .of_eq rfl rfl rfl
  case loop => exact grows_callLoop ..
  case parked => exact .of_eq rfl rfl rfl
  case leave =>
    unfold callLeave releasePool
    split <;> exact .of_eq rfl rfl rfl
  case release =>
    have := grows_objRelease s
    have hi : Grows s ({ s.objRelease with checked := s.checked.erase t }.setPc t .idle) :=
      { this with }
    exact hi.report ..

theorem grows_isr (hs : s.isr op = some s') : Grows s s' := by
  obtain ⟨-, rfl⟩ := ite_some_none_eq_some.mp hs
  unfold isrCall
  dsimp only
  split
  · have := grows_perform (s.nextCall .isr) .isr op
    have hp : Grows s ((s.nextCall .isr).perform .isr op).2 :=
      { this with }
    exact hp.report ..
  · have hn : Grows s (s.nextCall .isr) := .of_eq rfl rfl rfl
    exact hn.report ..

theorem grows_deleteThread (s : QueueSys) (t : Tid) : Grows s (s.deleteThread t) := by
  unfold deleteThread
  dsimp only
  split
  · have := grows_objRelease { s with waits := s.waits.delete t }
    exact { this with }
  · exact .of_eq rfl rfl rfl

theorem grows_step {l : Label} (hok : NotDeleted s l) (hs : step s l = some s') : Grows s s' := by
  cases l with
  | send | receive => exact grows_begin hs
  | cs t => exact grows_advance hs
  | sendIsr | receiveIsr => exact grows_isr hs
  | tick | suspend | resume | enableKill =>
    cases hs
    exact .of_eq rfl rfl rfl
  | deleteThread t =>
    obtain ⟨-, ⟨⟩⟩ := ite_none_left_eq_some.mp hs
    exact grows_deleteThread s t
  | delete isStatic => exact absurd rfl (hok isStatic)

/-! ## The property -/

theorem Stored.length_eq (h : Stored s) : s.accepted.length = s.delivered.length + s.q.depth := by
  have := congrArg List.length h.contents_eq
  simpa [MsgQueue.contents] using this.symm

theorem fifo_of_reachable {msgSize depth : Nat} {pool : Nat → UInt8} {heapOwned : Bool}
    {s : QueueSys} (h : ((queue msgSize depth pool heapOwned).restrict NotDeleted).Reachable s) :
    Fifo s ∧ ∀ l s', NotDeleted s l → step s l = some s' → Grows s s' := by
  have hi := (fifoInv_isInvariant msgSize depth pool heapOwned).holds h
  refine ⟨?_, fun l s' hok hs => grows_step hok hs⟩
  exact
    { delivered_prefix := ⟨_, hi.stored.contents_eq⟩
      depth_eq := hi.stored.length_eq
      depth_le := hi.stored.ok.depth_le
      contents_eq := hi.stored.contents_eq
      effect := hi.calls.effect }

/-- A sender waits for room and a receiver's message is taken by an interrupt. -/
theorem fifo_of_reachable_stolen :
    ∃ s, ((queue 1 1 (fun _ => 0) true).restrict NotDeleted).Reachable s ∧
      s.accepted.map snd = [[7], [8]] ∧ s.delivered.map snd = [[7]] ∧ Fifo s := by
  obtain ⟨s, hr, hp⟩ := LTS.Reachable.of_create
    (queueCreate 1 1 (fun _ => 0) true) step NotDeleted
    [.receive 0 5 true, .cs 0, .cs 0, .send 1 [7] 0 true, .cs 1, .cs 1, .send 2 [8] 9 true, .cs 2,
      .cs 2, .receiveIsr, .tick, .cs 0, .cs 0, .cs 2, .cs 2, .cs 2, .cs 2]
    (fun s => s.accepted.map snd = [[7], [8]] ∧ s.delivered.map snd = [[7]])
    (by decide +kernel)
  exact ⟨s, hr, hp.1, hp.2, (fifo_of_reachable hr).1⟩

end QueueSys

end MiniTree.Os
