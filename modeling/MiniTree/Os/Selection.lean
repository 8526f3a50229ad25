import MiniTree.Os.IntegrityRun

/-!
# Selection of the next thread

`mini_os_schedule_switch` without the EDF and DEADLINE classes. The round-robin
step starts from the outgoing thread when the level of the last switch,
`s_current_priority`, is still the highest one, and takes it for granted that the
outgoing thread is on that level. `mini_os_thread_priority_apply` can move the
running thread between two switches, so the two may disagree:

* the thread was moved off the level: its successor is a thread of its new level,
  or that level's sentinel;
* the thread was moved onto the highest level: the head of the level is taken
  instead of the successor.

`SelectOk` says that neither is the case, and `selectionSound_iff` that the
selection is right exactly then.
-/

namespace MiniTree.Os

open MiniTree.Core Core.Ring Core.Bits Option

/-- A switch in state `s` returns OK and publishes a thread of the highest level in use,
the cyclic successor of an outgoing thread that is ready on that level. -/
def SelectionSound (c : Cfg) (s : Sched) : Prop :=
  (∃ t, (s.thr t).Runnable) → ∃ s' t p, scheduleSwitch c s = (.ok, s') ∧
    s'.current = some (.thread t) ∧ t ∈ s'.lists (.ready p) ∧ (∀ q < p, s'.lists (.ready q) = []) ∧
    ∀ o, s.current = some (.thread o) → (s.thr o).Runnable → o ∈ s'.lists (.ready p) →
      CyclicSucc (s'.lists (.ready p)) o t

/-- An outgoing thread that is still ready is on the level of the last switch exactly
when that is the highest level; or it is last on the highest level, whose head is then
its successor. -/
def SelectOk (c : Cfg) (s : Sched) : Prop :=
  ∀ o ∈ s.current.bind Node.asThread, (s.thr o).Runnable →
    (s.currentPriority = getHighestPriority c s ↔ (s.thr o).priority = getHighestPriority c s) ∨
    ((s.thr o).priority = getHighestPriority c s ∧
      (s.lists (.ready (getHighestPriority c s))).getLast? = some o)
  deriving Decidable

section select

variable {c : Cfg} {s : Sched} {o t : Tid} {p : Nat} {s' : Sched}

/-! ## The level -/

theorem Linked.mem_ready (h : Linked c ∅ s) (hd : c.deadline = false) :
    t ∈ s.lists (.ready p) ↔ (s.thr t).Runnable ∧ (s.thr t).priority = p := by
  rw [h.mem_iff _ _ (Set.notMem_empty t)]
  constructor
  · intro hh
    exact ⟨(home_eq_ready hh).1, (home_eq_ready hh).2.2⟩
  · rintro ⟨hr, rfl⟩
    simp [home_runnable hr, dlScheduled, hd]

/-- With a runnable thread the highest level is in use and the levels above are not. -/
theorem Linked.highest (h : Linked c ∅ s) (hd : c.deadline = false) (hr : (s.thr t).Runnable) :
    getHighestPriority c s < c.priority ∧ s.lists (.ready (getHighestPriority c s)) ≠ [] ∧
      ∀ q < getHighestPriority c s, s.lists (.ready q) = [] := by
  have hbit : s.gPriority.getLsbD (s.thr t).priority = true :=
    (h.bitmap _).mpr (List.ne_nil_of_mem ((h.mem_ready hd).mpr ⟨hr, rfl⟩))
  have hz : s.gPriority ≠ 0 := by
    intro h0
    rw [h0] at hbit
    simp at hbit
  obtain ⟨hset, hlow⟩ := (ctz_eq_iff hz).mp rfl
  simp only [getHighestPriority, hz, if_false]
  refine ⟨?_, (h.bitmap _).mp hset, fun q hq => ?_⟩
  · obtain ⟨u, hu⟩ := List.exists_mem_of_ne_nil _ ((h.bitmap _).mp hset)
    rw [← ((h.mem_ready hd).mp hu).2]
    exact h.prio_lt u
  · by_contra hne
    have := (h.bitmap q).mpr hne
    rw [hlow q hq] at this
    cases this

/-- The highest level is the only one in use with none in use above. -/
theorem Linked.eq_highest (h : Linked c ∅ s) (hd : c.deadline = false) (ht : t ∈ s.lists (.ready p))
    (hlow : ∀ q < p, s.lists (.ready q) = []) : p = getHighestPriority c s := by
  obtain ⟨-, hne, habove⟩ := h.highest hd ((h.mem_ready hd).mp ht).1
  rcases lt_trichotomy p (getHighestPriority c s) with hlt | he | hgt
  · rw [habove p hlt] at ht
    cases ht
  · exact he
  · exact absurd (hlow _ hgt) hne

/-! ## The ring -/

theorem mem_listHeads (hp : p < c.priority) : ListHead.ready p ∈ listHeads c := by
  simp [listHeads, hp]

/-- The next node of a runnable thread is on its own level. -/
theorem Linked.nodeNext (h : Linked c ∅ s) (hd : c.deadline = false) (hr : (s.thr o).Runnable) :
    nodeNext c s o = match after o (s.lists (.ready (s.thr o).priority)) with
      | some u => .thread u
      | none => .head (.ready (s.thr o).priority) := by
  have hm := (h.mem_ready hd).mpr ⟨hr, rfl⟩
  have hfind : (listHeads c).find? (fun l => o ∈ s.lists l) = some (.ready (s.thr o).priority) := by
    obtain ⟨l, hl⟩ := isSome_iff_exists.mp (List.find?_isSome.mpr
      ⟨_, mem_listHeads (h.prio_lt o), by simpa using hm⟩ :
        ((listHeads c).find? fun l => o ∈ s.lists l).isSome)
    have ho : o ∈ s.lists l := by simpa using List.find?_some hl
    rw [h.mem_iff _ _ (Set.notMem_empty o)] at ho hm
    rw [hl, ← ho, hm]
  unfold Os.nodeNext
  generalize (listHeads c).find? (fun l => o ∈ s.lists l) = x at hfind ⊢
  subst hfind
  rfl

theorem nodeNext_congr (hl : s'.lists = s.lists) : nodeNext c s' o = nodeNext c s o := by
  unfold Os.nodeNext
  rw [hl]

theorem headNext_congr (hl : s'.lists = s.lists) (l : ListHead) : headNext s' l = headNext s l := by
  unfold headNext
  rw [hl]

theorem headNext_cons {l : ListHead} {u : Tid} (hu : (s.lists l).head? = some u) :
    headNext s l = .thread u := by simp [headNext, hu]

/-! ## The switch -/

theorem demoteCurrent_eq (s : Sched) : demoteCurrent s = { s with thr := (demoteCurrent s).thr } := by
  unfold demoteCurrent
  split
  · split <;> rfl
  · rfl

theorem demoteCurrent_lists (s : Sched) : (demoteCurrent s).lists = s.lists := by
  rw [demoteCurrent_eq]

theorem demoteCurrent_current (s : Sched) : (demoteCurrent s).current = s.current := by
  rw [demoteCurrent_eq]

/-- The outgoing thread is READY after the demotion exactly when it was runnable. -/
theorem demoteCurrent_ready (hc : s.current = some (.thread o)) :
    ((demoteCurrent s).thr o).state = .ready ↔ (s.thr o).Runnable := by
  unfold demoteCurrent Tcb.Runnable
  rw [hc]
  simp only
  split <;> simp_all

/-- The node a switch chooses on level `p`. -/
def chosen (c : Cfg) (s : Sched) (p : Nat) : Node :=
  selectLevel c { demoteCurrent s with currentPriority := p } s.currentPriority p

theorem publish_current (s : Sched) (n : Node) : (publish s n).current = some n := by
  unfold publish
  split <;> rfl

theorem publish_lists (s : Sched) (n : Node) : (publish s n).lists = s.lists := by
  unfold publish
  split <;> rfl

/-- Without the DEADLINE class a switch with a runnable thread publishes `chosen`. -/
theorem Linked.switch_eq (h : Linked c ∅ s) (hd : c.deadline = false) (hr : (s.thr t).Runnable) :
    ∃ s', scheduleSwitch c s = (.ok, s') ∧ s'.lists = s.lists ∧
      s'.current = some (chosen c s (getHighestPriority c s)) := by
  have hlt := (h.highest hd hr).1
  have hp : getHighestPriority c (demoteCurrent s) = getHighestPriority c s := by
    rw [demoteCurrent_eq]
    rfl
  refine ⟨_, ?_, ?_, publish_current { demoteCurrent s with
    currentPriority := getHighestPriority c s } _⟩
  · have hcur : (demoteCurrent s).currentPriority = s.currentPriority := by rw [demoteCurrent_eq]
    unfold scheduleSwitch
    simp only [hd, hp, hcur]
    rw [if_neg (by simp), if_neg (by omega)]
    rfl
  · rw [publish_lists]
    exact demoteCurrent_lists s

theorem selectLevel_ring (he : c.edf = false) (hl : s'.lists = s.lists)
    (hc : s'.current = some (.thread o)) (hst : (s'.thr o).state = .ready)
    (hne : nodeNext c s o ≠ .thread o) : selectLevel c s' p p =
      if nodeNext c s o = .head (.ready p) then headNext s (.ready p) else nodeNext c s o := by
  unfold selectLevel
  simp only [he, hc, nodeNext_congr hl, headNext_congr hl]
  rw [if_neg (by simp), if_pos ⟨trivial, hst, hne⟩]

theorem selectLevel_head {old : Nat} (he : c.edf = false) (hl : s'.lists = s.lists)
    (hc : ∀ o, s'.current = some (.thread o) → (s'.thr o).state = .ready → old ≠ p) :
    selectLevel c s' old p = headNext s (.ready p) := by
  unfold selectLevel
  simp only [he, headNext_congr hl]
  rw [if_neg (by simp)]
  split
  · rename_i o ho
    exact if_neg fun h => hc o ho h.2.1 h.1.symm
  · rfl

/-- The level of the last switch is the highest one: the choice is made on the ring of
the outgoing thread, wherever that is. -/
theorem Linked.chosen_ring (h : Linked c ∅ s) (he : c.edf = false) (hd : c.deadline = false)
    (hc : s.current = some (.thread o)) (hr : (s.thr o).Runnable) (hp : s.currentPriority = p) :
    chosen c s p = if Os.nodeNext c s o = .head (.ready p) then headNext s (.ready p)
      else Os.nodeNext c s o := by
  have hne : Os.nodeNext c s o ≠ .thread o := by
    rw [h.nodeNext hd hr]
    split
    · rename_i u hu
      exact fun e => after_ne (h.nodup _) hu (Node.thread.inj e)
    · simp
  unfold chosen
  rw [hp]
  exact selectLevel_ring he (demoteCurrent_lists s) ((demoteCurrent_current s).trans hc)
    ((demoteCurrent_ready hc).mpr hr) hne

/-- Otherwise the head of the level is chosen. -/
theorem chosen_head (he : c.edf = false)
    (hc : ∀ o, s.current = some (.thread o) → (s.thr o).Runnable → s.currentPriority ≠ p) :
    chosen c s p = headNext s (.ready p) := by
  refine selectLevel_head he (demoteCurrent_lists s) fun o ho hst => ?_
  have ho' : s.current = some (.thread o) := (demoteCurrent_current s).symm.trans ho
  exact hc o ho' ((demoteCurrent_ready ho').mp hst)

/-- The choice `n` on level `p` is a thread of the level, and follows the outgoing thread
if that is on the level. -/
def ChoiceSound (s : Sched) (p : Nat) (n : Node) : Prop :=
  ∃ t, n = .thread t ∧ t ∈ s.lists (.ready p) ∧ ∀ o, s.current = some (.thread o) →
    o ∈ s.lists (.ready p) → CyclicSucc (s.lists (.ready p)) o t

section
variable (h : Linked c ∅ s)
include h

theorem Linked.selectionSound_iff_choice (hd : c.deadline = false)
    (hr : (s.thr t).Runnable) : SelectionSound c s ↔
      ChoiceSound s (getHighestPriority c s) (chosen c s (getHighestPriority c s)) := by
  obtain ⟨s', hs', hl, hcur⟩ := h.switch_eq hd hr
  constructor
  · intro hsound
    obtain ⟨s'', u, p, he, hu, hm, hlow, hsucc⟩ := hsound ⟨t, hr⟩
    obtain rfl : s' = s'' := (Prod.mk.inj (hs'.symm.trans he)).2
    rw [hl] at hm hsucc
    obtain rfl := h.eq_highest hd hm (by rwa [hl] at hlow)
    exact ⟨u, some.inj (hcur.symm.trans hu), hm, fun o ho hom =>
      hsucc o ho ((h.mem_ready hd).mp hom).1 hom⟩
  · rintro ⟨u, hu, hm, hsucc⟩ -
    refine ⟨s', u, _, hs', by rw [hcur, hu], by rwa [hl], ?_, fun o ho _ hom => ?_⟩
    · rw [hl]
      exact (h.highest hd hr).2.2
    · rw [hl] at hom ⊢
      exact hsucc o ho hom

/-- The head of the level is a sound choice unless the outgoing thread is on the level and
not its last. -/
theorem choiceSound_head_iff {u : Tid} (hu : (s.lists (.ready p)).head? = some u) :
    ChoiceSound s p (headNext s (.ready p)) ↔ ∀ o, s.current = some (.thread o) →
      o ∈ s.lists (.ready p) → (s.lists (.ready p)).getLast? = some o := by
  have hh := headNext_cons hu
  constructor
  · rintro ⟨v, hv, -, hsucc⟩ o ho hm
    obtain rfl : u = v := Node.thread.inj (hh.symm.trans hv)
    exact (cyclicSucc_head_iff (h.nodup _) hm hu).mp (hsucc o ho hm)
  · intro hlast
    exact ⟨u, hh, List.mem_of_head? hu, fun o ho hm =>
      (cyclicSucc_head_iff (h.nodup _) hm hu).mpr (hlast o ho hm)⟩

/-- The ring of the outgoing thread gives a sound choice exactly when it is the level's. -/
theorem Linked.choiceSound_ring_iff (he : c.edf = false) (hd : c.deadline = false)
    (hc : s.current = some (.thread o)) (hr : (s.thr o).Runnable) (hp : s.currentPriority = p) :
    ChoiceSound s p (chosen c s p) ↔ (s.thr o).priority = p := by
  rw [h.chosen_ring he hd hc hr hp]
  have hnext := h.nodeNext hd hr
  constructor
  · rintro ⟨u, hu, hm, -⟩
    cases ha : after o (s.lists (.ready (s.thr o).priority)) with
    | some v =>
      rw [ha] at hnext
      rw [hnext, if_neg (by simp)] at hu
      cases hu
      rw [← ((h.mem_ready hd).mp hm).2, ((h.mem_ready hd).mp (after_mem ha)).2]
    | none =>
      rw [ha] at hnext
      rw [hnext] at hu
      by_contra hne
      rw [if_neg (by simpa using hne)] at hu
      cases hu
  · intro hq
    have hm : o ∈ s.lists (.ready p) := (h.mem_ready hd).mpr ⟨hr, hq⟩
    rw [hq] at hnext
    rw [hnext]
    have hsucc : ∀ u, ((after o (s.lists (.ready p))).or (s.lists (.ready p)).head?) = some u →
        ∀ v, s.current = some (.thread v) → v ∈ s.lists (.ready p) →
          CyclicSucc (s.lists (.ready p)) v u := by
      intro u hu v hv _
      obtain rfl : o = v := Node.thread.inj (some.inj (hc.symm.trans hv))
      exact (cyclicSucc_iff (h.nodup _) hm).mpr hu
    cases ha : after o (s.lists (.ready p)) with
    | some u =>
      exact ⟨u, by simp, after_mem ha, hsucc u (by simp [ha])⟩
    | none =>
      obtain ⟨u, hu⟩ : ∃ u, (s.lists (.ready p)).head? = some u := by
        cases hl : s.lists (.ready p) with
        | nil =>
          rw [hl] at hm
          cases hm
        | cons x xs => exact ⟨x, rfl⟩
      exact ⟨u, by simp [headNext_cons hu], List.mem_of_head? hu, hsucc u (by simp [ha, hu])⟩

theorem Linked.selectOk_iff (he : c.edf = false) (hd : c.deadline = false) :
    SelectionSound c s ↔ SelectOk c s := by
  have hcur : ∀ {o}, o ∈ s.current.bind Node.asThread ↔ s.current = some (.thread o) := by
    intro o
    cases hc : s.current with
    | none => simp
    | some n => cases n <;> simp [Node.asThread]
  by_cases hex : ∃ t, (s.thr t).Runnable
  · obtain ⟨t, ht⟩ := hex
    rw [h.selectionSound_iff_choice hd ht]
    obtain ⟨u, hu⟩ := List.exists_mem_of_ne_nil _ (h.highest hd ht).2.1
    obtain ⟨v, hv⟩ : ∃ v, (s.lists (.ready (getHighestPriority c s))).head? = some v :=
      ne_none_iff_exists'.mp fun h0 => List.ne_nil_of_mem hu (List.head?_eq_none_iff.mp h0)
    by_cases hring : ∃ o, s.current = some (.thread o) ∧ (s.thr o).Runnable ∧
        s.currentPriority = getHighestPriority c s
    · -- the round-robin step
      obtain ⟨o, hc, hr, hp⟩ := hring
      rw [h.choiceSound_ring_iff he hd hc hr hp]
      constructor
      · intro hq o' ho' _
        obtain rfl : o = o' := Node.thread.inj (some.inj (hc.symm.trans (hcur.mp ho')))
        exact .inl ⟨fun _ => hq, fun _ => hp⟩
      · intro hok
        rcases hok o (hcur.mpr hc) hr with hiff | ⟨hq, -⟩
        · exact hiff.mp hp
        · exact hq
    -- the head of the level
    have hring' : ∀ o, s.current = some (.thread o) → (s.thr o).Runnable →
        s.currentPriority ≠ getHighestPriority c s := fun o hc hr hp => hring ⟨o, hc, hr, hp⟩
    rw [chosen_head he hring', choiceSound_head_iff h hv]
    constructor
    · intro hlast o ho hr
      have hc := hcur.mp ho
      by_cases hq : (s.thr o).priority = getHighestPriority c s
      · exact .inr ⟨hq, hlast o hc ((h.mem_ready hd).mpr ⟨hr, hq⟩)⟩
      · exact .inl ⟨fun hp => absurd hp (hring' o hc hr), fun hq' => absurd hq' hq⟩
    · intro hok o hc hm
      obtain ⟨hr, hq⟩ := (h.mem_ready hd).mp hm
      rcases hok o (hcur.mpr hc) hr with hiff | ⟨-, hlast⟩
      · exact absurd (hiff.mpr hq) (hring' o hc hr)
      · exact hlast
  · constructor
    · exact fun _ o _ hr => absurd ⟨o, hr⟩ hex
    · exact fun _ hr => absurd hr hex

end

end select

/-! ## Runs -/

/-- Thread creation, delays, parking and waking, suspend and resume, base priorities,
mutexes with priority inheritance, ticks and switches. -/
def selectLabel : Label → Bool
  | .create _ | .delay _ | .park _ _ | .wake _ _ | .suspend _ | .resume _ | .setPriority _ _
  | .mutexCreate _ _ | .lock _ _ | .unlock _ | .cs | .tick | .switch => true
  | _ => false

/-- Every switch meets `SelectOk`, and a resume still finds its target as it tested it. -/
def SelectSafe (c : Cfg) (k : Kernel) (l : Label) : Prop :=
  selectLabel l = true ∧ StepKeeps c k l ∧ (l = .switch → SelectOk c k.toSched)
  deriving Decidable

theorem intact_of_selectSafe (c : Cfg) :
    ((kernel c).restrict (SelectSafe c)).IsInvariant (Intact c ∅) where
  init _ hk := hk ▸ intact_boot c
  step _ _ _ h hs := h.step hs.1.2.1 hs.2

/-- Without EDF and DEADLINE, in every state a run of such steps reaches, the selection is
sound exactly when `SelectOk` holds. -/
theorem selectionSound_iff (c : Cfg) (he : c.edf = false) (hd : c.deadline = false) (k : Kernel)
    (hr : ((kernel c).restrict (SelectSafe c)).Reachable k) :
    SelectionSound c k.toSched ↔ SelectOk c k.toSched :=
  ((intact_of_selectSafe c).holds hr).linked.selectOk_iff he hd

/-- The owner of a mutex was boosted to the level of its waiter and runs there. -/
theorem selectionSound_iff_boosted : ∃ k : Kernel,
    (k.current = some (.thread 0) ∧ k.waiters (.mutex 0) = [1] ∧ k.lists (.ready 1) = [0]) ∧
      SelectionSound (Cfg.build false false) k.toSched := by
  obtain ⟨k, hk, hst, hok⟩ := kernel_execOk (Cfg.build false false) (SelectSafe (Cfg.build false false))
    [.create 5, .mutexCreate false true, .switch, .lock 0 0, .cs, .cs, .create 1, .switch,
      .lock 0 (-1), .cs, .cs, .cs, .switch]
    (fun k => (k.current = some (.thread 0) ∧ k.waiters (.mutex 0) = [1] ∧
      k.lists (.ready 1) = [0]) ∧ SelectOk (Cfg.build false false) k.toSched) (by decide +kernel)
  exact ⟨k, hst, (selectionSound_iff _ rfl rfl k hk).mpr hok⟩

/-- The running thread lowers its own priority: the next switch follows its ring on the
new level and publishes that level's sentinel. -/
theorem selectionSound_fails_after_setPriority :
    ¬ ∀ k, ((kernel (Cfg.build false false)).restrict fun _ l => selectLabel l = true).Reachable k →
      SelectionSound (Cfg.build false false) k.toSched := by
  intro h
  obtain ⟨k, hk, hr, hcur⟩ := kernel_execOk (Cfg.build false false) (fun _ l => selectLabel l = true)
    [.create 3, .create 3, .switch, .setPriority 0 5, .cs]
    (fun k => (k.thr 1).Runnable ∧ (scheduleSwitch (Cfg.build false false) k.toSched).2.current =
      some (.head (.ready 5))) (by decide +kernel)
  obtain ⟨s', t, p, hs', ht, -⟩ := h k hk ⟨1, hr⟩
  rw [hs', ht] at hcur
  cases hcur

end MiniTree.Os
