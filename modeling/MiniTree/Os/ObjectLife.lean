import MiniTree.Core.LTS
import MiniTree.Os.Mutex

/-!
# Lifetime of a kernel object (`inc/obj.h`)

One object with any number of API calls on it. Each call takes a reference with `mini_os_obj_acquire`
and gives it back with `mini_os_obj_release`; the creator's own reference goes with
`mini_os_obj_request_destroy`, which every delete function calls. All of these run with interrupts
masked, so a step is one of them. Whoever drops the count to 0 after the request reclaims the storage.
Sources: `lib/mini-os/src`, `lib/mini-os/inc`.

The count has eight bits. A header whose storage went back to the heap can hold anything, and caller
storage is cleared, the destroy flag included.

**Results.** `Usage.safe_iff`: the storage is reclaimed once, after the request, when no call is in
flight, and no call gets in after the request, exactly when at most 254 calls are in flight at once,
destroy is requested once and no call begins after the storage was reclaimed.
`safe_fails_with_255_calls` is the count that wraps.
-/

namespace MiniTree.Os

open MiniTree.Core List Option Nat

/-- What the users of an object do. -/
structure Usage where
  heapOwned : Bool
  /-- how many calls may hold a reference at once -/
  maxCalls : Nat
  /-- destroy may be requested a second time -/
  again : Bool
  /-- a call may begin when the storage was reclaimed -/
  late : Bool
  deriving DecidableEq, Repr

/-- The header and wait list of an object. `calls` are those that acquired it and have not released it,
`lateCalls` those that acquired it after a destroy request. -/
structure ObjSys where
  obj : Obj
  waitList : List Nat
  calls : List Nat
  requests : Nat
  frees : Nat
  lateCalls : List Nat
  deriving DecidableEq, Repr

namespace ObjSys

def create (heapOwned : Bool) : ObjSys := ⟨objInit heapOwned, [], [], 0, 0, []⟩

/-- mirrors obj.h:153-159 (`mini_os_obj_free_storage`) -/
def freeStorage (s : ObjSys) : ObjSys :=
  if s.obj.heapOwned then { s with frees := s.frees + 1 }
  else { s with obj := ⟨0, false, false, false, false⟩, waitList := [], frees := s.frees + 1 }

/-- mirrors obj.h:166-177 (`mini_os_obj_acquire`): a refused call returns -/
def acquire (s : ObjSys) (c : Nat) : ObjSys :=
  match objAcquire s.obj with
  | (.ok, obj) =>
    { s with
      obj := obj
      calls := c :: s.calls
      lateCalls := if s.requests = 0 then s.lateCalls else c :: s.lateCalls }
  | _ => s

/-- mirrors obj.h:187-199 (`mini_os_obj_release`) -/
def release (s : ObjSys) (c : Nat) : ObjSys :=
  let s := { s with obj := objDrop s.obj, calls := s.calls.erase c }
  if s.obj.ref = 0 ∧ s.obj.destroy then s.freeStorage else s

/-- mirrors obj.h:212-226 (`mini_os_obj_request_destroy`) -/
def requestDestroy (s : ObjSys) : ObjSys :=
  let s := { s with obj := objDrop { s.obj with destroy := true }, requests := s.requests + 1 }
  if 0 < s.obj.ref then s else s.freeStorage

/-- mirrors semaphore.c:213-249 (`mini_os_semaphore_delete_common`) -/
def deleteCommon (s : ObjSys) (isStatic : Bool) : Err × ObjSys :=
  if (!s.obj.heapOwned) ≠ isStatic then (.notsupp, s)
  else if 1 < s.obj.ref ∧ s.obj.kill = false then (.reject, s)
  else if s.waitList ≠ [] ∧ s.obj.kill = false then (.reject, s)
  else (.ok, { s with waitList := [] }.requestDestroy)

inductive Label where
  | acquire (c : Nat)
  | park (c : Nat)
  | wake (c : Nat)
  | release (c : Nat)
  | enableKill
  | requestDestroy
  | delete (isStatic : Bool)
  /-- the heap hands the freed storage to someone else, who writes to it -/
  | reuse (obj : Obj)
  deriving DecidableEq, Repr

def step (u : Usage) (s : ObjSys) : Label → Option ObjSys
  | .acquire c =>
    if c ∉ s.calls ∧ s.calls.length < u.maxCalls ∧ (u.late = true ∨ s.frees = 0) then
      some (s.acquire c)
    else none
  | .park c =>
    if c ∈ s.calls ∧ c ∉ s.waitList then some { s with waitList := s.waitList ++ [c] } else none
  | .wake c => if c ∈ s.waitList then some { s with waitList := s.waitList.erase c } else none
  | .release c => if c ∈ s.calls ∧ c ∉ s.waitList then some (s.release c) else none
  | .enableKill => some { s with obj := { s.obj with kill := true } }
  | .requestDestroy =>
    if u.again = true ∨ s.requests = 0 then some s.requestDestroy else none
  | .delete isStatic =>
    if u.again = true ∨ s.requests = 0 then some (s.deleteCommon isStatic).2 else none
  | .reuse obj => if u.heapOwned = true ∧ 0 < s.frees then some { s with obj := obj } else none

def runs (u : Usage) : LTS ObjSys Label := .ofFn (· = create u.heapOwned) (step u)

/-- The storage is reclaimed once, after the request and as soon as no call is in flight any more, not
earlier, and the request refuses new calls. -/
structure Lifetime (s : ObjSys) : Prop where
  once : s.frees ≤ 1
  requested : 0 < s.frees → 0 < s.requests
  unused : 0 < s.frees → s.calls = []
  reclaimed : 0 < s.requests → s.calls = [] → s.frees = 1
  refused : s.lateCalls = []

/-! ## The three phases -/

inductive Phase where
  | live
  | dying
  | gone

/-- The count is that of the calls, and that of the creator until the request. -/
inductive Counted (s : ObjSys) : Phase → Prop
  | live (hr : s.requests = 0) (hf : s.frees = 0) (hd : s.obj.destroy = false)
      (hc : s.obj.ref = s.calls.length + 1) : Counted s .live
  | dying (hr : s.requests = 1) (hf : s.frees = 0) (hd : s.obj.destroy = true)
      (hc : s.obj.ref = s.calls.length) (hne : s.calls ≠ []) : Counted s .dying
  | gone (hr : s.requests = 1) (hf : s.frees = 1) (hc : s.calls = []) : Counted s .gone

structure Inv (u : Usage) (s : ObjSys) : Prop where
  phase : ∃ p, Counted s p
  few : s.calls.length ≤ u.maxCalls
  refused : s.lateCalls = []

theorem Inv.lifetime {u : Usage} {s : ObjSys} (h : Inv u s) : Lifetime s := by
  obtain ⟨p, hp⟩ := h.phase
  cases hp with
  | live hr hf hd hc => exact ⟨by omega, by omega, by omega, by omega, h.refused⟩
  | dying hr hf hd hc hne =>
    exact ⟨by omega, by omega, by omega, fun _ hnil => absurd hnil hne, h.refused⟩
  | gone hr hf hc => exact ⟨by omega, by omega, fun _ => hc, fun _ _ => hf, h.refused⟩

/-- Only the fields of the invariant matter. -/
theorem Inv.same {u : Usage} {s s' : ObjSys} (h : Inv u s) (hd : s'.obj.destroy = s.obj.destroy)
    (href : s'.obj.ref = s.obj.ref) (hc : s'.calls = s.calls) (hr : s'.requests = s.requests)
    (hf : s'.frees = s.frees) (hl : s'.lateCalls = s.lateCalls) : Inv u s' := by
  obtain ⟨p, hp⟩ := h.phase
  refine ⟨⟨p, ?_⟩, hc ▸ h.few, hl.trans h.refused⟩
  cases hp with
  | live hr' hf' hd' hc' =>
    exact .live (hr.trans hr') (hf.trans hf') (hd.trans hd') (by rw [href, hc', hc])
  | dying hr' hf' hd' hc' hne =>
    exact .dying (hr.trans hr') (hf.trans hf') (hd.trans hd') (by rw [href, hc', hc]) (hc ▸ hne)
  | gone hr' hf' hc' => exact .gone (hr.trans hr') (hf.trans hf') (hc.trans hc')

section

variable {u : Usage} {s : ObjSys}

/-- The last reference of a requested object takes the storage with it. -/
theorem Inv.freeStorage (hr : s.requests = 1) (hf : s.frees = 0) (hc : s.calls = [])
    (hl : s.lateCalls = []) : Inv u s.freeStorage := by
  have hgone : s.frees + 1 = 1 := congrArg (· + 1) hf
  have hfew : s.calls.length ≤ u.maxCalls := by simp [hc]
  unfold ObjSys.freeStorage
  split <;> exact ⟨⟨_, .gone hr hgone hc⟩, hfew, hl⟩

theorem Inv.acquire (h : Inv u s) (hmax : u.maxCalls ≤ 254) (c : Nat) (hlt : s.calls.length < u.maxCalls)
    (hf : s.frees = 0) : Inv u (s.acquire c) := by
  obtain ⟨p, hp⟩ := h.phase
  cases hp with
  | live hr hf hd hc =>
    unfold ObjSys.acquire objAcquire
    rw [if_neg (by rw [hd]; exact Bool.false_ne_true)]
    dsimp only
    rw [if_pos hr, mod_eq_of_lt (by omega)]
    exact ⟨⟨_, .live hr hf hd (by rw [hc, length_cons])⟩, hlt, h.refused⟩
  | dying hr hf hd hc hne =>
    unfold ObjSys.acquire objAcquire
    rw [if_pos hd]
    exact h
  | gone hr hf' hc => omega

theorem Inv.release (h : Inv u s) {c : Nat} (hmem : c ∈ s.calls) : Inv u (s.release c) := by
  have hlen := length_erase_of_mem hmem
  have hpos := length_pos_of_mem hmem
  have hfew : (s.calls.erase c).length ≤ u.maxCalls := by
    have := h.few
    omega
  obtain ⟨p, hp⟩ := h.phase
  unfold ObjSys.release
  dsimp only
  cases hp with
  | live hr hf hd hc =>
    rw [if_neg fun hz => Bool.false_ne_true (hd.symm.trans hz.2)]
    refine ⟨⟨_, .live hr hf hd ?_⟩, hfew, h.refused⟩
    simp only [objDrop]
    omega
  | dying hr hf hd hc hne =>
    split
    · rename_i hz
      have hnil : s.calls.erase c = [] := by
        refine eq_nil_of_length_eq_zero ?_
        have := hz.1
        simp only [objDrop] at this
        omega
      exact .freeStorage hr hf hnil h.refused
    · rename_i hz
      have hne' : ¬ s.obj.ref - 1 = 0 := fun h0 => hz ⟨h0, hd⟩
      refine ⟨⟨_, .dying hr hf hd ?_ ?_⟩, hfew, h.refused⟩
      · simp only [objDrop]
        omega
      · refine ne_nil_of_length_pos ?_
        dsimp only
        omega
  | gone hr hf hc => exact absurd hmem (hc ▸ not_mem_nil)

theorem Inv.requestDestroy (h : Inv u s) (hr0 : s.requests = 0) : Inv u s.requestDestroy := by
  obtain ⟨p, hp⟩ := h.phase
  cases hp with
  | live hr hf hd hc =>
    unfold ObjSys.requestDestroy
    dsimp only
    split
    · rename_i hpos
      have hpos' : 0 < s.obj.ref - 1 := hpos
      refine ⟨⟨_, .dying (by rw [hr]) hf rfl ?_ ?_⟩, h.few, h.refused⟩
      · simp only [objDrop]
        omega
      · refine ne_nil_of_length_pos ?_
        dsimp only
        omega
    · rename_i hpos
      have hpos' : ¬ 0 < s.obj.ref - 1 := hpos
      have hnil : s.calls = [] := eq_nil_of_length_eq_zero (by omega)
      exact .freeStorage (by rw [hr]) hf hnil h.refused
  | dying hr hf hd hc hne | gone hr hf hc => omega

theorem Inv.deleteCommon (h : Inv u s) (hr0 : s.requests = 0) (isStatic : Bool) :
    Inv u (s.deleteCommon isStatic).2 := by
  unfold ObjSys.deleteCommon
  split
  · exact h
  split
  · exact h
  split
  · exact h
  · exact (h.same rfl rfl rfl rfl rfl rfl : Inv u { s with waitList := [] }).requestDestroy hr0

end

theorem inv_runs {u : Usage} (hmax : u.maxCalls ≤ 254) (hagain : u.again = false)
    (hlate : u.late = true → u.maxCalls = 0) : (runs u).IsInvariant (Inv u) where
  init s hs := by
    rw [show s = create u.heapOwned from hs]
    exact ⟨⟨_, .live rfl rfl rfl rfl⟩, zero_le _, rfl⟩
  step s l s' h hstep := by
    have hstep : step u s l = some s' := hstep
    cases l with
    | acquire c =>
      obtain ⟨⟨hc, hlt, hok⟩, rfl⟩ := ite_some_none_eq_some.mp hstep
      refine Inv.acquire h hmax c hlt (hok.resolve_left fun hl => ?_)
      have := hlate hl
      omega
    | park c | wake c =>
      obtain ⟨-, rfl⟩ := ite_some_none_eq_some.mp hstep
      exact h.same rfl rfl rfl rfl rfl rfl
    | release c =>
      obtain ⟨⟨hc, -⟩, rfl⟩ := ite_some_none_eq_some.mp hstep
      exact h.release hc
    | enableKill =>
      obtain rfl := some_inj.mp hstep
      exact h.same rfl rfl rfl rfl rfl rfl
    | requestDestroy =>
      obtain ⟨hok, rfl⟩ := ite_some_none_eq_some.mp hstep
      exact h.requestDestroy (hok.resolve_left (by rw [hagain]; exact Bool.false_ne_true))
    | delete isStatic =>
      obtain ⟨hok, rfl⟩ := ite_some_none_eq_some.mp hstep
      exact h.deleteCommon (hok.resolve_left (by rw [hagain]; exact Bool.false_ne_true)) isStatic
    | reuse obj =>
      obtain ⟨⟨-, hf⟩, rfl⟩ := ite_some_none_eq_some.mp hstep
      obtain ⟨p, hp⟩ := h.phase
      cases hp with
      | live hr hf' hd hc => omega
      | dying hr hf' hd hc hne => omega
      | gone hr hf' hc => exact ⟨⟨_, .gone hr hf' hc⟩, h.few, h.refused⟩

/-! ## The count wraps -/

/-- A request at a count of 0 or 1 reclaims the storage, whoever is in flight. -/
theorem requestDestroy_last {s : ObjSys} (h : s.obj.ref ≤ 1) :
    s.requestDestroy.frees = s.frees + 1 ∧ s.requestDestroy.calls = s.calls := by
  unfold ObjSys.requestDestroy objDrop freeStorage
  dsimp only
  rw [if_neg (by omega)]
  split <;> exact ⟨rfl, rfl⟩

/-- The object with `n` calls in flight. -/
def acquired (heapOwned : Bool) (n : Nat) : ObjSys :=
  { create heapOwned with
    obj := { objInit heapOwned with ref := (n + 1) % 256 }
    calls := (List.range n).reverse }

theorem reachable_acquired (u : Usage) {n : Nat} (h : n ≤ u.maxCalls) :
    (runs u).Reachable (acquired u.heapOwned n) := by
  induction n with
  | zero => exact .init rfl
  | succ n ih =>
    refine .step (ih (by omega)) (l := .acquire n) ?_
    change step u _ _ = _
    rw [step, if_pos ⟨by simp [acquired], by simp [acquired]; omega, .inr rfl⟩]
    refine congrArg some ?_
    unfold ObjSys.acquire objAcquire acquired
    rw [if_neg (by simp [objInit])]
    simp [create, range_succ, add_mod]

end ObjSys

namespace Usage

def Safe (u : Usage) : Prop := ∀ s, (ObjSys.runs u).Reachable s → s.Lifetime

variable {u : Usage}

/-- 255 calls leave the count at 0. -/
theorem unsafe_of_many (h : 255 ≤ u.maxCalls) : ¬ u.Safe := by
  intro hsafe
  have hlife := hsafe _ (.step (ObjSys.reachable_acquired u h) (l := .requestDestroy)
    (show ObjSys.step u _ _ = _ from if_pos (.inr rfl)))
  have hzero : (ObjSys.acquired u.heapOwned 255).obj.ref = 0 := rfl
  obtain ⟨hfrees, hcalls⟩ := ObjSys.requestDestroy_last (hzero.trans_le (zero_le 1))
  have hnil := hlife.unused (by rw [hfrees]; exact succ_pos _)
  rw [hcalls] at hnil
  exact absurd (congrArg List.length hnil) (by simp [ObjSys.acquired])

theorem unsafe_of_again (h : u.again = true) : ¬ u.Safe := by
  intro hsafe
  have hstep : ∀ s, ObjSys.step u s .requestDestroy = some s.requestDestroy := fun s => if_pos (.inl h)
  have hlife := hsafe _ (.step (.step (.init rfl) (hstep _)) (hstep _))
  have hfrees : (ObjSys.create u.heapOwned).requestDestroy.requestDestroy.frees = 2 := by
    cases u.heapOwned <;> rfl
  have := hlife.once
  omega

/-- In reclaimed storage the destroy flag is gone: caller storage is cleared, and what the heap hands
out again is written to. -/
theorem unsafe_of_late (h : u.late = true) (hpos : 0 < u.maxCalls) : ¬ u.Safe := by
  intro hsafe
  have hdel : (ObjSys.runs u).Reachable (ObjSys.create u.heapOwned).requestDestroy :=
    .step (l := .requestDestroy) (.init rfl) (show ObjSys.step u _ _ = _ from if_pos (.inr rfl))
  have hfresh : ∃ s, (ObjSys.runs u).Reachable s ∧ s.obj.destroy = false ∧ s.calls = [] ∧
      0 < s.frees := by
    cases hheap : u.heapOwned with
    | false =>
      rw [hheap] at hdel
      exact ⟨_, hdel, rfl, rfl, succ_pos _⟩
    | true =>
      rw [hheap] at hdel
      exact ⟨_, .step (l := .reuse (objInit true)) hdel (show ObjSys.step u _ _ = _ from
        if_pos ⟨hheap, succ_pos _⟩), rfl, rfl, succ_pos _⟩
  obtain ⟨s, hs, hd, hcalls, hfrees⟩ := hfresh
  have hlife := hsafe _ (.step (l := .acquire 0) hs (show ObjSys.step u _ _ = _ from
    if_pos ⟨by rw [hcalls]; exact not_mem_nil, by rw [hcalls]; exact hpos, .inl h⟩))
  unfold ObjSys.acquire objAcquire at hlife
  rw [if_neg (by rw [hd]; exact Bool.false_ne_true)] at hlife
  exact absurd (hlife.unused hfrees) (cons_ne_nil _ _)

theorem safe_iff (u : Usage) :
    u.Safe ↔ u.maxCalls ≤ 254 ∧ u.again = false ∧ (u.late = true → u.maxCalls = 0) := by
  constructor
  · intro h
    refine ⟨?_, ?_, ?_⟩
    · by_contra hmany
      exact unsafe_of_many (by omega) h
    · exact eq_false_of_ne_true fun hagain => unsafe_of_again hagain h
    · intro hlate
      by_contra hpos
      exact unsafe_of_late hlate (Nat.pos_of_ne_zero hpos) h
  · rintro ⟨hmax, hagain, hlate⟩ s hs
    exact ((ObjSys.inv_runs hmax hagain hlate).holds hs).lifetime

/-- A heap object, deleted once and not used after that, with any number of calls. -/
theorem safe_fails_with_255_calls : ¬ ∀ n, Safe ⟨true, n, false, false⟩ :=
  fun h => unsafe_of_many (le_refl 255) (h 255)

end Usage

end MiniTree.Os
