import MiniTree.Os.QueueFifo

/-!
# Wake-ups of queue waiters

A message (a free slot) that arrives while a receiver (a sender) is parked wakes one waiter
and stays in the queue until some thread takes it. So while a thread is parked, every
message must be matched by a woken thread that will still run its loop. Suspending or
deleting such a thread breaks the match: nobody wakes the next waiter.

The proof counts with a slack of one between the moment a woken thread starts its loop's
critical section and the moment it takes its message (`Covered`).

**Results.** `notStranded_of_reachable`: the match holds in every run that suspends or deletes
no woken thread before it has run its loop. `notStranded_fails_after_delete`: without that
condition a receiver stays parked in front of a message.
-/

namespace MiniTree.Os.QueueSys

open MiniTree.Core Function List Nat Option

/-- What a waiter of the side waits for: messages, or free slots. -/
def available (s : QueueSys) : Side → Nat
  | .receive => s.q.depth
  | .send => s.q.maxDepth - s.q.depth

/-- The threads woken from the side's list that may run and have not run their loop. -/
def retrying (s : QueueSys) (i : Side) : List Tid :=
  (s.woken i).filter fun t => (s.waits.thr t).Runnable

/-- While a thread is parked, what it waits for is spoken for. -/
def NotStranded (s : QueueSys) : Prop := ∀ i, (s.retrying i).Nodup ∧
    (s.waits.lists i ≠ [] → s.available i ≤ (s.retrying i).length)

/-- The queue stays, and no thread is suspended or deleted between its wake-up from one of
the queue's lists and the next run of its loop. -/
def WokenSafe (s : QueueSys) (l : Label) : Prop := NotDeleted s l ∧
    match l with
    | .suspend t | .deleteThread t => ∀ i, t ∉ s.woken i
    | _ => True

instance (s : QueueSys) (t : Tid) : Decidable (∀ i, t ∉ s.woken i) :=
  decidable_of_iff (t ∉ s.woken .send ∧ t ∉ s.woken .receive)
    ⟨fun h i => by cases i; exacts [h.1, h.2], fun h => ⟨h _, h _⟩⟩

instance (s : QueueSys) : (l : Label) → Decidable (WokenSafe s l)
  | .suspend t | .deleteThread t =>
    inferInstanceAs (Decidable (NotDeleted s _ ∧ ∀ i, t ∉ s.woken i))
  | .send _ _ _ _ | .receive _ _ _ | .cs _ | .sendIsr _ | .receiveIsr | .tick | .resume _
  | .enableKill | .delete _ => inferInstanceAs (Decidable (NotDeleted s _ ∧ True))

/-! ## The invariant -/

def ParkedOn (i : Side) : QueuePc → Prop
  | .parked op _ _ => op.side = i
  | _ => False

/-- The call runs its loop next, after a wait on list `i`. -/
def Retries (i : Side) : QueuePc → Prop
  | .parked op _ _ => op.side = i
  | .loop op _ _ _ => op.side = i
  | _ => False

/-- One thread: if it was woken it will run its loop, if it is on a list it waits there. -/
structure ThreadOk (s : QueueSys) (t : Tid) : Prop where
  woken : ∀ i, t ∈ s.woken i →
    (s.waits.thr t).Runnable ∧ (s.waits.thr t).waitStatus = true ∧ Retries i (s.pc t)
  parked : ∀ i, (s.waits.thr t).waitList = some i → ParkedOn i (s.pc t)

structure Wakes (s : QueueSys) : Prop where
  waits_ok : s.waits.Ok
  alive : s.q.obj.destroy = false
  depth_le : s.q.depth ≤ s.q.maxDepth
  nodup : ∀ i, (s.woken i).Nodup
  thread : ∀ t, ThreadOk s t

/-- Each message or slot a parked thread waits for is matched, up to `d`. -/
def Covered (d : Side → Nat) (s : QueueSys) : Prop :=
  ∀ i, s.waits.lists i ≠ [] → s.available i ≤ (s.woken i).length + d i

structure WakeInv (s : QueueSys) : Prop extends Wakes s where
  covered : Covered (fun _ => 0) s

attribute [local simp] ParkedOn Retries

variable {s s' : QueueSys} {t : Tid} {i : Side} {op : QueueOp} {p : QueuePc} {f : Side → List Tid}

theorem WakeInv.notStranded (h : WakeInv s) : NotStranded s := by
  intro i
  have hall : s.retrying i = s.woken i := by
    apply filter_eq_self.mpr
    intro t ht
    exact decide_eq_true ((h.thread t).woken i ht).1
  rw [hall]
  exact ⟨h.nodup i, fun hne => h.covered i hne⟩

theorem Wakes.waiter_not_woken (h : Wakes s) (ht : t ∈ s.waits.lists i) : ∀ j, t ∉ s.woken j := by
  intro j hj
  have hl := (h.waits_ok.mem_iff i t).mp ht
  rw [((h.thread t).woken j hj).1.2.1] at hl
  cases hl

theorem ThreadOk.frame (h : ThreadOk s t) (hw : ∀ i, t ∈ s'.woken i → t ∈ s.woken i)
    (ht : s'.waits.thr t = s.waits.thr t) (hp : s'.pc t = s.pc t) : ThreadOk s' t where
  woken i hi := by
    rw [ht, hp]
    exact h.woken i (hw i hi)
  parked i hi := by
    rw [ht] at hi
    rw [hp]
    exact h.parked i hi

/-- The step writes one thread, and neither messages nor wake-ups. -/
theorem Wakes.move (h : Wakes s) (ho : s'.q.obj.destroy = false)
    (hd : s'.q.depth = s.q.depth) (hm : s'.q.maxDepth = s.q.maxDepth) (hw : s'.woken = s.woken)
    (hok : s'.waits.Ok) (hthr : ∀ u ≠ t, s'.waits.thr u = s.waits.thr u)
    (hpc : ∀ u ≠ t, s'.pc u = s.pc u) (ht : ThreadOk s' t) : Wakes s' where
  waits_ok := hok
  alive := ho
  depth_le := by rw [hd, hm]; exact h.depth_le
  nodup := by rw [hw]; exact h.nodup
  thread u := by
    by_cases hu : u = t
    · subst hu
      exact ht
    · exact (h.thread u).frame (fun i hi => hw ▸ hi) (hthr u hu) (hpc u hu)

theorem available_congr (hd : s'.q.depth = s.q.depth)
    (hm : s'.q.maxDepth = s.q.maxDepth) (i : Side) : s'.available i = s.available i := by
  cases i <;> simp [available, hm, hd]

/-- The lists only shrink. -/
theorem Covered.shrink {d : Side → Nat} (h : Covered d s)
    (hd : s'.q.depth = s.q.depth) (hm : s'.q.maxDepth = s.q.maxDepth) (hw : s'.woken = s.woken)
    (hl : ∀ i, s.waits.lists i = [] → s'.waits.lists i = []) : Covered d s' := by
  intro i hne
  rw [available_congr hd hm, hw]
  exact h i fun he => hne (hl i he)

/-- No message moves and no thread waits or is woken. -/
structure SameWaits (s s' : QueueSys) : Prop where
  depth : s'.q.depth = s.q.depth
  maxDepth : s'.q.maxDepth = s.q.maxDepth
  woken : s'.woken = s.woken
  waits : s'.waits = s.waits

theorem SameWaits.covered (h : SameWaits s s') (d : Side → Nat) (hc : Covered d s) : Covered d s' :=
  hc.shrink h.depth h.maxDepth h.woken fun i hi => by rw [h.waits]; exact hi

/-! ## Waking and moving a message -/

theorem wakeOne_cases (s : QueueSys) (i : Side) : (s.waits.lists i = [] ∧ s.wakeOne i = s) ∨
      ∃ t rest, s.waits.lists i = t :: rest ∧ s.wakeOne i = { s with
          waits := s.waits.syncWakeThread t true
          woken := update s.woken i (s.woken i ++ [t]) } := by
  unfold wakeOne Waits.wakeOne
  cases hl : s.waits.lists i with
  | nil => exact .inl ⟨rfl, rfl⟩
  | cons t rest => exact .inr ⟨t, rest, rfl, rfl⟩

theorem mem_woken_append {j : Side} {u : Tid} :
    u ∈ update f i (f i ++ [t]) j ↔ u ∈ f j ∨ (j = i ∧ u = t) := by
  rw [update_apply]
  split <;> simp_all

theorem nodup_woken_append (h : ∀ j, (f j).Nodup)
    (ht : t ∉ f i) (j : Side) : (update f i (f i ++ [t]) j).Nodup := by
  rw [update_apply]
  split
  · exact (h i).append (nodup_singleton t) (by simpa using ht)
  · exact h j

theorem ParkedOn.retries (h : ParkedOn i p) : Retries i p := by
  cases p <;> first | exact h | exact h.elim

theorem Wakes.wakeOne (h : Wakes s) (i : Side) : Wakes (s.wakeOne i) := by
  rcases wakeOne_cases s i with ⟨-, he⟩ | ⟨t, rest, hl, he⟩
  · rw [he]
    exact h
  have hmem : t ∈ s.waits.lists i := by rw [hl]; exact mem_cons_self ..
  have hnot := h.waiter_not_woken hmem
  have hlist := (h.waits_ok.mem_iff i t).mp hmem
  have hactive : (s.waits.thr t).run = .active := h.waits_ok.active t (by rw [hlist]; rfl)
  rw [he]
  refine ⟨h.waits_ok.syncWakeThread t true, h.alive, h.depth_le,
    nodup_woken_append h.nodup (hnot i), fun u => ?_⟩
  by_cases hu : u = t
  · subst hu
    refine ⟨fun j hj => ?_, fun j hj => ?_⟩
    · rcases mem_woken_append.mp hj with hj | ⟨rfl, -⟩
      · exact absurd hj (hnot j)
      simpa [Waits.syncWakeThread_thr_self, WaitTcb.Runnable, hactive] using
        ((h.thread u).parked j hlist).retries
    · simp [Waits.syncWakeThread_thr_self] at hj
  · refine (h.thread u).frame (fun j hj => ?_) (Waits.syncWakeThread_thr_of_ne _ hu _) rfl
    rcases mem_woken_append.mp hj with hj | ⟨-, hj⟩
    · exact hj
    · exact absurd hj hu

/-- One more for the side, and its oldest waiter is woken. -/
theorem covered_wakeOne {d d' : Side → Nat} (h : Covered d s)
    (hi : d i ≤ d' i + 1) (hne : ∀ j, j ≠ i → d j ≤ d' j) : Covered d' (s.wakeOne i) := by
  rcases wakeOne_cases s i with ⟨hl, he⟩ | ⟨t, rest, hl, he⟩
  · rw [he]
    intro j hj
    have hji : j ≠ i := fun e => hj (e ▸ hl)
    exact le_trans (h j hj) (Nat.add_le_add_left (hne j hji) _)
  intro j hj
  have hav : (s.wakeOne i).available j = s.available j :=
    available_congr (by simp) (by simp) j
  rw [hav]
  have hbefore : s.waits.lists j ≠ [] := by
    intro hnil
    apply hj
    rw [he]
    show (s.waits.lists j).erase t = []
    rw [hnil]
    rfl
  have hcov := h j hbefore
  rw [he]
  by_cases hji : j = i
  · subst hji
    simp
    omega
  · have := hne j hji
    simp [hji]
    omega

/-- The slack of a thread that is in its loop's critical section. -/
def slack (i : Side) : Side → Nat :=
  fun j => if j = i then 1 else 0

/-- The message moves: the slack is used up, and the other side gains one with a wake-up. -/
theorem WakeInv.perform {c : Caller} (h : Wakes s)
    (hc : Covered (slack op.side) s) (hready : s.q.Ready op) : WakeInv (s.perform c op).2 := by
  have hle := h.depth_le
  cases op with
  | send msg =>
    have hlt : s.q.depth < s.q.maxDepth := hready
    have hmid : Wakes { s with
        q := s.q.put msg, accepted := s.accepted ++ [(s.call c, msg)] } :=
      ⟨h.waits_ok, h.alive, hlt, h.nodup, fun t => (h.thread t).frame (fun _ hi => hi) rfl rfl⟩
    refine ⟨hmid.wakeOne _, covered_wakeOne (d := slack .receive) (fun i hne => ?_)
      (by simp [slack]) (fun j hj => by simp [slack, hj])⟩
    have hi := hc i hne
    cases i <;> simp [available, slack, QueueOp.side, MsgQueue.put] at hi ⊢ <;> omega
  | receive =>
    have hpos : 0 < s.q.depth := hready
    have hmid : Wakes { s with
        q := s.q.drop, delivered := s.delivered ++ [(s.call c, s.q.front)] } :=
      { h with depth_le := le_trans (sub_le ..) hle, thread := fun t => (h.thread t).frame (fun _ hi => hi) rfl rfl }
    refine ⟨hmid.wakeOne _, covered_wakeOne (d := slack .send) (fun i hne => ?_)
      (by simp [slack]) (fun j hj => by simp [slack, hj])⟩
    have hi := hc i hne
    cases i <;> simp [available, slack, QueueOp.side, MsgQueue.drop] at hi ⊢ <;> omega

/-! ## The steps -/

section Steps

variable {timeout deadline : UInt32} {inThread : Bool} {out : Bytes}

/-- The call `t` is in moves on, outside a wait. -/
theorem Wakes.goto (h : Wakes s) (hs : SameWaits s s') (hpc : s'.pc = update s.pc t p)
    (ho : s'.q.obj.destroy = false) (hnot : ∀ i, t ∉ s.woken i)
    (hlist : (s.waits.thr t).waitList = none) : Wakes s' ∧ ∀ d, Covered d s → Covered d s' := by
  refine ⟨h.move (t := t) ho hs.depth hs.maxDepth hs.woken (by rw [hs.waits]; exact h.waits_ok)
    (fun u _ => by rw [hs.waits]) (fun u hu => ?_) ⟨fun i hi => ?_, fun i hi => ?_⟩, hs.covered⟩
  · rw [hpc]
    exact update_of_ne hu ..
  · rw [hs.woken] at hi
    exact absurd hi (hnot i)
  · rw [hs.waits, hlist] at hi
    cases hi

/-- A thread outside a wait is on no list and was not woken. -/
theorem WakeInv.goto (h : WakeInv s) (hs : SameWaits s s') (hpc : s'.pc = update s.pc t p)
    (ho : s'.q.obj.destroy = false) (hp : ∀ i, ¬ Retries i (s.pc t) ∧ ¬ ParkedOn i (s.pc t)) :
    WakeInv s' := by
  have hlist : (s.waits.thr t).waitList = none := by
    cases hl : (s.waits.thr t).waitList with
    | none => rfl
    | some i => exact absurd ((h.thread t).parked i hl) (hp i).2
  have hg := h.toWakes.goto hs hpc ho (fun i ht => (hp i).1 ((h.thread t).woken i ht).2.2) hlist
  exact ⟨hg.1, hg.2 _ h.covered⟩

theorem WakeInv.callBegin (h : WakeInv s) (hp : s.pc t = .idle)
    (timeout : UInt32) (inThread : Bool) : WakeInv (s.callBegin t op timeout inThread) := by
  rw [callBegin_of_alive h.alive]
  exact h.goto ⟨rfl, rfl, rfl, rfl⟩ rfl h.alive (by simp [hp])

theorem WakeInv.callDeadline (h : WakeInv s) (hp : s.pc t = .entered op timeout inThread) :
    WakeInv (s.callDeadline t op timeout inThread) :=
  h.goto ⟨rfl, rfl, rfl, rfl⟩ rfl h.alive (by simp [hp])

theorem mem_rerun {u : Tid} {i : Side} (h : ∀ i, (s.woken i).Nodup) :
    u ∈ (s.rerun t).woken i ↔ u ≠ t ∧ u ∈ s.woken i :=
  (h i).mem_erase_iff

/-- A thread that starts its loop's critical section is no longer counted. -/
theorem Wakes.rerun (h : WakeInv s) (hp : s.pc t = .loop op timeout deadline inThread) :
    Wakes (s.rerun t) ∧ Covered (slack op.side) (s.rerun t) := by
  refine ⟨{ h with nodup := fun i => (h.nodup i).erase t, thread := fun u => ?_ }, ?_⟩
  · exact (h.thread u).frame (fun i hi => ((mem_rerun h.nodup).mp hi).2) rfl rfl
  · intro i hne
    have hcov : s.available i ≤ (s.woken i).length := h.covered i hne
    change s.available i ≤ ((s.woken i).erase t).length + slack op.side i
    by_cases hi : i = op.side
    · have hlen : (s.woken i).length ≤ ((s.woken i).erase t).length + 1 := by
        rw [length_erase]
        split <;> omega
      rw [hi] at hcov hlen ⊢
      simp only [slack, if_true]
      omega
    -- a thread of the other side was not counted here
    have hnot : t ∉ s.woken i := fun hm => by
      have hr := ((h.thread t).woken i hm).2.2
      rw [hp] at hr
      exact hi hr.symm
    rw [erase_of_not_mem hnot]
    omega

theorem available_eq_zero (hready : ¬ s.q.Ready op) : s.available op.side = 0 := by
  cases op with
  | send msg => exact Nat.sub_eq_zero_of_le (Nat.le_of_not_lt hready)
  | receive => exact Nat.eq_zero_of_not_pos hready

/-- A pass of the loop that finds nothing needs no slack. -/
theorem covered_of_not_ready (h : Covered (slack op.side) s)
    (hready : ¬ s.q.Ready op) : Covered (fun _ => 0) s := by
  intro i hne
  by_cases hi : i = op.side
  · rw [hi, available_eq_zero hready]
    exact zero_le _
  · have := h i hne
    simpa [slack, hi] using this

section
variable (h : WakeInv s)
include h

theorem WakeInv.callPark (hready : ¬ s.q.Ready op)
    (hnot : ∀ i, t ∉ s.woken i) (ht : (s.waits.thr t).Runnable) (timeout deadline ticks : UInt32) :
    WakeInv (s.callPark t op timeout deadline ticks) := by
  refine ⟨h.move h.alive rfl rfl rfl (h.waits_ok.syncWaitPark ht _ _)
    (fun u hu => Waits.syncWaitPark_thr_of_ne _ hu ..) (fun u hu => setPc_pc_of_ne _ _ hu)
    ⟨fun i hi => absurd hi (hnot i), fun i hi => ?_⟩, fun i hne => ?_⟩
  · change ((s.waits.syncWaitPark t op.side ticks).thr t).waitList = some i at hi
    rw [Waits.syncWaitPark_thr_self] at hi
    cases hi
    simp [QueueSys.callPark, setPc_pc_self]
  · by_cases hi : i = op.side
    · rw [hi, show (s.callPark t op timeout deadline ticks).available op.side = 0 from
        available_eq_zero hready]
      exact zero_le _
    refine h.covered i ?_
    intro hnil
    apply hne
    show update s.waits.lists op.side _ i = []
    rw [update_of_ne hi]
    exact hnil

theorem WakeInv.callLoop (hp : s.pc t = .loop op timeout deadline inThread)
    (ht : (s.waits.thr t).Runnable) : WakeInv (s.callLoop t op timeout deadline inThread) := by
  obtain ⟨hw, hc⟩ := Wakes.rerun h hp
  have hnot : ∀ i, t ∉ (s.rerun t).woken i := fun i hm => ((mem_rerun h.nodup).mp hm).1 rfl
  have hgoto : ∀ p, Wakes ((s.rerun t).setPc t p) ∧
      ∀ d, Covered d (s.rerun t) → Covered d ((s.rerun t).setPc t p) :=
    fun p => hw.goto ⟨rfl, rfl, rfl, rfl⟩ rfl hw.alive hnot ht.2.1
  have hr : ¬ s.q.Ready op → WakeInv (s.rerun t) := fun hno => ⟨hw, covered_of_not_ready hc hno⟩
  refine callLoop_cases s t op (fun ret _ hno => ?_) (fun hready => ?_) fun hno =>
    (hr hno).callPark hno hnot ht timeout deadline
  · have halive : ¬ s.q.obj.destroy = true := by simp [h.alive]
    exact ⟨(hgoto _).1, (hgoto _).2 _ (hr (hno.resolve_left halive)).covered⟩
  · generalize QueuePc.leave op .ok ((s.rerun t).perform (.thread t) op).1 = p
    have hperf := WakeInv.perform (c := .thread t) (hgoto p).1 ((hgoto p).2 _ hc) hready
    rw [perform_setPc] at hperf
    exact hperf

theorem WakeInv.callUnparked (hp : s.pc t = .parked op timeout deadline)
    (ht : (s.waits.thr t).Runnable) : WakeInv (s.callUnparked t op timeout deadline) := by
  have hself : (s.callUnparked t op timeout deadline).waits.thr t =
      { s.waits.thr t with waitStatus := true, waitRef := false } := Waits.syncWaitDone_thr_self ..
  refine ⟨h.move h.alive rfl rfl rfl (h.waits_ok.syncWaitDone t)
    (fun u hu => Waits.syncWaitDone_thr_of_ne _ hu) (fun u hu => setPc_pc_of_ne _ _ hu)
    ⟨fun i hi => ?_, fun i hi => ?_⟩, h.covered.shrink rfl rfl rfl fun i hi => hi⟩
  · -- a woken thread goes back to its loop
    obtain ⟨-, hstatus, hr⟩ := (h.thread t).woken i hi
    rw [hself]
    refine ⟨ht, rfl, ?_⟩
    rw [show (s.callUnparked t op timeout deadline).pc t = .loop op timeout deadline true by
      rw [QueueSys.callUnparked, hstatus]; exact setPc_pc_self ..]
    rw [hp] at hr
    exact hr
  · rw [hself] at hi
    exact absurd (ht.2.1.symm.trans hi) (by simp)

theorem WakeInv.callLeave {ret : Err}
    (hp : s.pc t = .leave op ret out) : WakeInv (s.callLeave t op ret out) := by
  unfold QueueSys.callLeave
  rw [releasePool_of_alive h.alive]
  exact h.goto ⟨rfl, rfl, rfl, rfl⟩ rfl h.alive (by simp [hp])

theorem WakeInv.callEnd {ret : Err}
    (hp : s.pc t = .release op ret out) : WakeInv (s.callEnd t op ret out) := by
  unfold QueueSys.callEnd
  rw [objRelease_of_alive h.alive]
  exact h.goto ⟨rfl, rfl, rfl, rfl⟩ rfl h.alive (by simp [hp])

theorem WakeInv.keep (hs : SameWaits s s') (hpc : s'.pc = s.pc) (ho : s'.q.obj.destroy = false) :
    WakeInv s' := by
  refine ⟨⟨by rw [hs.waits]; exact h.waits_ok, ho, by rw [hs.depth, hs.maxDepth]; exact h.depth_le,
    by rw [hs.woken]; exact h.nodup, fun u => ?_⟩, hs.covered _ h.covered⟩
  exact (h.thread u).frame (fun i hi => hs.woken ▸ hi) (by rw [hs.waits]) (by rw [hpc])

theorem WakeInv.isrCall : WakeInv (s.isrCall op) := by
  have hn : WakeInv (s.nextCall .isr) := h.keep ⟨rfl, rfl, rfl, rfl⟩ rfl h.alive
  unfold QueueSys.isrCall
  dsimp only
  split
  · rename_i hready
    have hc : Covered (slack op.side) (s.nextCall .isr) := fun i hne =>
      le_trans (hn.covered i hne) (Nat.le_add_right ..)
    have hperf := WakeInv.perform (c := .isr) hn.toWakes hc hready
    exact hperf.keep ⟨rfl, rfl, rfl, rfl⟩ rfl hperf.alive
  · exact hn.keep ⟨rfl, rfl, rfl, rfl⟩ rfl h.alive

end

theorem expire_of_runnable {x : WaitTcb Side} (h : x.Runnable) : Waits.expire x = x := by
  unfold Waits.expire
  rw [h.2.2]

theorem WakeInv.tick (h : WakeInv s) :
    WakeInv { s with globalTick := s.globalTick + 1, waits := s.waits.tickDecrement } := by
  refine ⟨⟨h.waits_ok.tickDecrement, h.alive, h.depth_le, h.nodup, fun t => ⟨fun i hi => ?_,
    fun i hi => ?_⟩⟩, h.covered.shrink rfl rfl rfl fun i hi => ?_⟩
  · obtain ⟨hrun, hstatus, hr⟩ := (h.thread t).woken i hi
    rw [show s.waits.tickDecrement.thr t = s.waits.thr t from expire_of_runnable hrun]
    exact ⟨hrun, hstatus, hr⟩
  · change (Waits.expire (s.waits.thr t)).waitList = some i at hi
    rcases Waits.expire_waitList (s.waits.thr t) with he | he
    · exact (h.thread t).parked i (he ▸ hi)
    · rw [he] at hi
      cases hi
  · show (s.waits.lists i).filter _ = []
    rw [hi]
    rfl

/-- A thread that was not woken leaves its list, whatever becomes of it. -/
theorem WakeInv.gone {w : Waits Side} (h : WakeInv s) (hnot : ∀ i, t ∉ s.woken i) (hok : w.Ok)
    (hthr : ∀ u ≠ t, w.thr u = s.waits.thr u) (hlists : ∀ i, s.waits.lists i = [] → w.lists i = [])
    (hlist : (w.thr t).waitList = none) : WakeInv { s with waits := w } :=
  ⟨h.move h.alive rfl rfl rfl hok hthr (fun _ _ => rfl)
    ⟨fun i hi => absurd hi (hnot i), fun i hi => absurd (hlist.symm.trans hi) (by simp)⟩,
    h.covered.shrink rfl rfl rfl hlists⟩

theorem erase_eq_nil {l : List Tid} (h : l = []) : l.erase t = [] := by
  rw [h]
  rfl

theorem WakeInv.suspend (h : WakeInv s) (hnot : ∀ i, t ∉ s.woken i) :
    WakeInv { s with waits := s.waits.suspend t } :=
  h.gone hnot (h.waits_ok.suspend t) (fun _ hu => Waits.suspend_thr_of_ne _ hu)
    (fun _ hi => Waits.suspend_lists_nil hi t) (h.waits_ok.suspend_waitList t)

theorem WakeInv.resume (h : WakeInv s) (t : Tid) : WakeInv { s with waits := s.waits.resume t } := by
  by_cases hrun : (s.waits.thr t).run = .active
  · rw [Waits.resume_of_active hrun]
    exact h
  have hnot : ∀ i, t ∉ s.woken i := fun i hi => hrun ((h.thread t).woken i hi).1.1
  refine h.gone hnot (h.waits_ok.resume t) (fun u hu => Waits.resume_thr_of_ne _ hu)
    (fun i hi => ?_) ?_
  · rw [Waits.resume_lists]
    exact hi
  · rw [Waits.resume_waitList]
    exact h.waits_ok.waitList_none hrun

theorem WakeInv.deleteThread (h : WakeInv s) (hnot : ∀ i, t ∉ s.woken i) :
    WakeInv (s.deleteThread t) := by
  have hg : WakeInv { s with waits := s.waits.delete t } :=
    h.gone hnot (h.waits_ok.delete t) (fun u hu => Waits.delete_thr_of_ne _ hu)
      (fun i hi => erase_eq_nil hi) (by rw [Waits.delete_thr_self])
  unfold QueueSys.deleteThread
  dsimp only
  split
  · rw [objRelease_of_alive (s := { s with waits := s.waits.delete t }) h.alive]
    exact hg.keep ⟨rfl, rfl, rfl, rfl⟩ rfl h.alive
  · exact hg

end Steps

/-! ## Runs -/

theorem WakeInv.begin {timeout : UInt32}
    {inThread : Bool} (h : WakeInv s) (hs : s.begin t op timeout inThread = some s') : WakeInv s' := by
  obtain ⟨hg, rfl⟩ := ite_some_none_eq_some.mp hs
  exact h.callBegin hg.1 timeout inThread

theorem WakeInv.advance (h : WakeInv s) (hs : s.advance t = some s') : WakeInv s' := by
  obtain ⟨ht, hs⟩ := ite_none_right_eq_some.mp hs
  cases hp : s.pc t <;> rw [hp] at hs <;> cases hs
  case entered => exact h.callDeadline hp
  case loop => exact h.callLoop hp ht
  case parked => exact h.callUnparked hp ht
  case leave => exact h.callLeave hp
  case release => exact h.callEnd hp

theorem WakeInv.isr (h : WakeInv s) (hs : s.isr op = some s') : WakeInv s' := by
  obtain ⟨-, rfl⟩ := ite_some_none_eq_some.mp hs
  exact h.isrCall

theorem wakeInv_init {msgSize depth : Nat} {pool : Nat → UInt8} {heapOwned : Bool}
    (hs : queueCreate msgSize depth pool heapOwned = some s) : WakeInv s := by
  obtain ⟨-, ⟨⟩⟩ := ite_none_left_eq_some.mp hs
  exact
    { waits_ok := .init
      alive := rfl
      depth_le := zero_le _
      nodup := fun _ => nodup_nil
      thread := fun t => ⟨fun i hi => absurd hi not_mem_nil, fun i hi => nomatch hi⟩
      covered := fun i hne => absurd rfl hne }

theorem wakeInv_isInvariant (msgSize depth : Nat) (pool : Nat → UInt8) (heapOwned : Bool) :
    ((queue msgSize depth pool heapOwned).restrict WokenSafe).IsInvariant WakeInv where
  init s hs := wakeInv_init hs
  step s l s' h hs := by
    obtain ⟨⟨hok, hsafe⟩, hs⟩ := hs
    change step s l = some s' at hs
    cases l with
    | send | receive => exact h.begin hs
    | cs => exact h.advance hs
    | sendIsr | receiveIsr => exact h.isr hs
    | tick => cases hs; exact h.tick
    | suspend t => cases hs; exact h.suspend hsafe
    | resume t => cases hs; exact h.resume t
    | deleteThread t =>
      obtain ⟨-, ⟨⟩⟩ := ite_none_left_eq_some.mp hs
      exact h.deleteThread hsafe
    | enableKill => cases hs; exact h.keep ⟨rfl, rfl, rfl, rfl⟩ rfl h.alive
    | delete isStatic => exact absurd rfl (hok isStatic)

theorem notStranded_of_reachable {msgSize depth : Nat} {pool : Nat → UInt8} {heapOwned : Bool}
    {s : QueueSys} (h : ((queue msgSize depth pool heapOwned).restrict WokenSafe).Reachable s) :
    NotStranded s :=
  ((wakeInv_isInvariant msgSize depth pool heapOwned).holds h).notStranded

/-- Two receivers wait, a message wakes the first one; the other one may be suspended. -/
theorem notStranded_of_reachable_suspended :
    ∃ s, ((queue 1 2 (fun _ => 0) true).restrict WokenSafe).Reachable s ∧
      s.waits.lists .receive = [2] ∧ s.retrying .receive = [0] ∧ s.q.depth = 1 ∧ NotStranded s := by
  obtain ⟨s, hr, hp⟩ := LTS.Reachable.of_create
    (queueCreate 1 2 (fun _ => 0) true) step WokenSafe
    [.receive 0 waitForever true, .cs 0, .cs 0, .receive 1 waitForever true, .cs 1, .cs 1,
      .receive 2 waitForever true, .cs 2, .cs 2, .sendIsr [7], .suspend 1]
    (fun s => s.waits.lists .receive = [2] ∧ s.retrying .receive = [0] ∧ s.q.depth = 1)
    (by decide +kernel)
  exact ⟨s, hr, hp.1, hp.2.1, hp.2.2, notStranded_of_reachable hr⟩

/-- The woken receiver is deleted before it runs: the message stays, and so does the other
receiver. -/
theorem notStranded_fails_after_delete :
    ∃ s, ((queue 1 2 (fun _ => 0) true).restrict NotDeleted).Reachable s ∧ ¬ NotStranded s := by
  obtain ⟨s, hr, hlist, hretry, hdepth⟩ := LTS.Reachable.of_create
    (queueCreate 1 2 (fun _ => 0) true) step NotDeleted
    [.receive 0 waitForever true, .cs 0, .cs 0, .receive 1 waitForever true, .cs 1, .cs 1,
      .sendIsr [7], .deleteThread 0]
    (fun s => s.waits.lists .receive = [1] ∧ s.retrying .receive = [] ∧ s.q.depth = 1)
    (by decide +kernel)
  refine ⟨s, hr, fun h => ?_⟩
  have hle : s.q.depth ≤ (s.retrying .receive).length := (h .receive).2 (by rw [hlist]; simp)
  rw [hretry, hdepth] at hle
  exact absurd hle (by decide)

end MiniTree.Os.QueueSys
