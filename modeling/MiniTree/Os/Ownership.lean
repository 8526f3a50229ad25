import MiniTree.Core.Token
import MiniTree.Os.IntegrityRun

/-!
# The unit of a mutex

A mutex is a semaphore with one unit. The unit is in the semaphore's count, with the
owner, or inside a call: a lock that was woken with success or took the unit and has
not become the owner yet, or an unlock that cleared the owner and has not given the
unit back. `Owned` says that there is at most one such unit (`AtMostOne`), that
`hold_node` is linked on the owner's `hold_list`, and that a mutex whose deletion was
requested has no unit anybody could still come to own.

`Owned` reads the sync half of the kernel only. A step that moves no unit keeps it by
`Owned.frame`; the others go through `Owned.at`, one mutex at a time.
-/

namespace MiniTree.Os

open MiniTree.Core Option List

attribute [local simp] Mutex.zero SyncTcb.init boot

/-- The call `x` is in carries the unit of `m`. -/
def HasUnit (x : SyncTcb) (m : Mid) : Prop :=
  match x.call with
  | .lockParked m' => m' = m ∧ x.waitList = none ∧ x.waitStatus = true
  | .lockTaken m' ret | .lockExit m' ret => m' = m ∧ ret = .ok
  | .unlockGive m' => m' = m
  | _ => False

/-- The call may still take the unit of `m` out of the count. -/
def Undecided (m : Mid) : Call → Prop
  | .lockEnter m' _ | .lockTake m' _ | .lockWait m' _ => m' = m
  | _ => False

/-- Deletion was requested, or the storage is not a mutex. -/
def Dead (mx : Mutex) : Prop := mx.obj.destroy = true ∨ mx.reclaimed = true

inductive Place where
  | call (t : Tid)
  | owner (t : Tid)

def UnitAt (y : Sync) (m : Mid) : Place → Prop
  | .call t => HasUnit (y.wait t) m
  | .owner t => (y.mutex m).owner = some t

/-- The point a parked thread's call is at. -/
def parkedCall : WaitId → Call
  | .mutex m => .lockParked m
  | .obj n => .objParked n

/-- A thread on a wait list is inside the park of that list and has no result yet. -/
def ParkedWell (x : SyncTcb) : Prop :=
  ∀ w, x.waitList = some w → x.call = parkedCall w ∧ x.waitStatus = false

theorem parkedWell_none {x : SyncTcb} (h : x.waitList = none) : ParkedWell x := fun w hw => by
  rw [h] at hw
  cases hw

theorem owner_eq_none {y : Sync} {m : Mid} (hno : ∀ a, ¬ UnitAt y m a) :
    (y.mutex m).owner = none := by
  cases he : (y.mutex m).owner with
  | none => rfl
  | some t => exact absurd he (hno (.owner t))

/-- The unit, the owner and the `hold_list` of every mutex agree. `nT` and `nM` are the
next fresh names. -/
structure Owned (y : Sync) (nT nM : Nat) : Prop where
  unit : ∀ m, AtMostOne (y.mutex m).count (UnitAt y m)
  max : ∀ m, (y.mutex m).maxCount ≤ 1
  hold : ∀ m t, m ∈ (y.wait t).holdList ↔ (y.mutex m).owner = some t
  nodup : ∀ t, (y.wait t).holdList.Nodup
  locks : ∀ t, (y.wait t).locks = (y.wait t).holdList
  parked : ∀ t, ParkedWell (y.wait t)
  dead : ∀ m, Dead (y.mutex m) → (∀ a, ¬ UnitAt y m a) ∧
    ((y.mutex m).count = 0 ∨ ∀ t, ¬ Undecided m (y.wait t).call)
  armed : ∀ m, (y.mutex m).obj.kill = true → (y.mutex m).obj.timeout = true
  freshT : ∀ t, nT ≤ t → (y.wait t).holdList = []
  freshM : ∀ m, nM ≤ m → (y.mutex m).reclaimed = true

theorem owned_boot (c : Cfg) : Owned (boot c).toSync 0 0 where
  unit m := .empty (by simp) (by rintro (t | t) <;> simp [UnitAt, HasUnit])
  max m := by simp
  hold m t := by simp
  nodup t := nodup_nil
  locks t := rfl
  parked t := parkedWell_none rfl
  dead m _ := ⟨by rintro (t | t) <;> simp [UnitAt, HasUnit],
    .inl rfl⟩
  armed m h := by cases h
  freshT t _ := rfl
  freshM m _ := rfl

/-! ## Steps that move no unit -/

/-- A mutex whose unit is not touched; the storage of a dead one may be given back. -/
structure MutexKept (mx mx' : Mutex) : Prop where
  count : mx'.count ≤ mx.count
  max : mx'.maxCount ≤ mx.maxCount
  owner : mx'.owner = mx.owner ∨ Dead mx ∧ mx'.owner = none
  dead : Dead mx' → Dead mx
  reclaimed : mx.reclaimed = true → mx'.reclaimed = true
  armed : mx'.obj.kill = true → mx.obj.kill = true ∨ mx'.obj.timeout = true
  timeout : mx.obj.timeout = true → mx'.obj.timeout = true ∨ mx'.obj.kill = false

theorem MutexKept.refl (mx : Mutex) : MutexKept mx mx :=
  ⟨le_rfl, le_rfl, .inl rfl, id, id, .inl, .inl⟩

/-- A thread that gains no unit. -/
structure ThreadKept (x x' : SyncTcb) : Prop where
  hold : x'.holdList = x.holdList
  locks : x'.locks = x.locks
  unit : ∀ m, HasUnit x' m → HasUnit x m
  parked : ParkedWell x → ParkedWell x'

theorem ThreadKept.refl (x : SyncTcb) : ThreadKept x x :=
  ⟨rfl, rfl, fun _ => id, id⟩

section frame

variable {y y' : Sync} {nT nM : Nat}

section
variable (h : Owned y nT nM)
include h

theorem Owned.frame (hm : ∀ m, MutexKept (y.mutex m) (y'.mutex m))
    (ht : ∀ t, ThreadKept (y.wait t) (y'.wait t))
    (hu : ∀ t m, Undecided m (y'.wait t).call → Undecided m (y.wait t).call ∨ ¬ Dead (y.mutex m)) :
    Owned y' nT nM := by
  have hunit : ∀ m a, UnitAt y' m a → UnitAt y m a := by
    rintro m (t | t) ha
    · exact (ht t).unit m ha
    · rcases (hm m).owner with he | ⟨-, he⟩
      · exact he.symm.trans ha
      · simp [UnitAt, he] at ha
  have howner : ∀ m, (y'.mutex m).owner = (y.mutex m).owner := by
    intro m
    rcases (hm m).owner with he | ⟨hd, he⟩
    · exact he
    · cases ho : (y.mutex m).owner with
      | none => exact he
      | some t => exact absurd ho ((h.dead m hd).1 (.owner t))
  exact
    { unit := fun m => (h.unit m).mono (hm m).count (hunit m)
      max := fun m => (hm m).max.trans (h.max m)
      hold := fun m t => by
        rw [(ht t).hold, howner]
        exact h.hold m t
      nodup := fun t => (ht t).hold ▸ h.nodup t
      locks := fun t => by rw [(ht t).hold, (ht t).locks, h.locks]
      parked := fun t => (ht t).parked (h.parked t)
      dead := fun m hd => by
        have hd' := (hm m).dead hd
        obtain ⟨h1, h2⟩ := h.dead m hd'
        refine ⟨fun a ha => h1 a (hunit m a ha), h2.imp ?_ ?_⟩
        · intro h0
          have := (hm m).count
          omega
        · exact fun hno t hund => (hu t m hund).elim (hno t) fun hnd => hnd hd'
      armed := fun m hk => by
        rcases (hm m).armed hk with hk' | ht'
        · refine ((hm m).timeout (h.armed m hk')).resolve_right ?_
          simp [hk]
        · exact ht'
      freshT := fun t hle => (ht t).hold ▸ h.freshT t hle
      freshM := fun m hle => (hm m).reclaimed (h.freshM m hle) }

/-- One thread's fields change, no unit moves. -/
theorem Owned.modW {t : Tid} {f : SyncTcb → SyncTcb} (hf : ThreadKept (y.wait t) (f (y.wait t)))
    (hu : ∀ m, Undecided m (f (y.wait t)).call → Undecided m (y.wait t).call ∨ ¬ Dead (y.mutex m)) :
    Owned (y.modW t f) nT nM := by
  refine h.frame (fun m => .refl _) (fun u => ?_) fun u m => ?_
  · rw [modW_wait]
    split
    · rename_i hu
      exact hu ▸ hf
    · exact .refl _
  · rw [modW_wait]
    split
    · rename_i he
      exact he ▸ hu m
    · exact .inl

/-- One mutex's fields change, no unit moves. -/
theorem Owned.modM {m : Mid} {f : Mutex → Mutex}
    (hf : MutexKept (y.mutex m) (f (y.mutex m))) : Owned (y.modM m f) nT nM := by
  refine h.frame (fun m' => ?_) (fun t => .refl _) fun t m' => .inl
  by_cases he : m' = m
  · subst he
    simpa [Sync.modM] using hf
  · simpa [Sync.modM, he] using .refl _

theorem Owned.name_lt {m : Mid} (hl : ¬ Dead (y.mutex m)) : m < nM := by
  by_contra hle
  exact hl (.inr (h.freshM m (not_lt.mp hle)))

theorem Owned.live_of_unit {m : Mid} {a : Place} (ha : UnitAt y m a) :
    ¬ Dead (y.mutex m) := fun hd => (h.dead m hd).1 a ha

theorem Owned.live_of_take {m : Mid} {t : Tid} (hu : Undecided m (y.wait t).call)
    (hc : 0 < (y.mutex m).count) : ¬ Dead (y.mutex m) := fun hd => by
  rcases (h.dead m hd).2 with h0 | hno
  · omega
  · exact hno t hu

end

end frame

/-! ## The moves of the unit -/

section moves

variable {y y' : Sync} {nT nM : Nat} {t : Tid} {m : Mid} {n : Nat}

/-- A thread that gains no unit but that of `m`. -/
structure GainsOnly (m : Mid) (x x' : SyncTcb) : Prop where
  unit : ∀ m', m' ≠ m → HasUnit x' m' → HasUnit x m'
  undecided : ∀ m', Undecided m' x'.call → Undecided m' x.call
  parked : ParkedWell x → ParkedWell x'

theorem GainsOnly.refl (x : SyncTcb) : GainsOnly m x x :=
  ⟨fun _ _ => id, fun _ => id, id⟩

/-- The record of a thread behind a move of the unit of `m`, which it owns then or not. -/
structure Moved (m : Mid) (own : Prop) (x x' : SyncTcb) : Prop extends GainsOnly m x x' where
  others : ∀ m', m' ≠ m → (m' ∈ x'.holdList ↔ m' ∈ x.holdList)
  mem : m ∈ x'.holdList ↔ own
  nodup : x'.holdList.Nodup
  locks : x'.locks = x'.holdList

section
variable (h : Owned y nT nM)
include h

/-- The unit of a live mutex `m` moves, the other mutexes are left alone. -/
theorem Owned.at {mx : Mutex} (hmx : ∀ m', y'.mutex m' = if m' = m then mx else y.mutex m')
    (hlive : ¬ Dead mx) (hname : m < nM) (hmax : mx.maxCount ≤ 1)
    (harm : mx.obj.kill = true → mx.obj.timeout = true) (ho : ∀ u, mx.owner = some u → u < nT)
    (ht : ∀ u, Moved m (mx.owner = some u) (y.wait u) (y'.wait u))
    (htok : AtMostOne mx.count (UnitAt y' m)) : Owned y' nT nM := by
  have hmm : y'.mutex m = mx := by rw [hmx, if_pos rfl]
  have hother : ∀ m', m' ≠ m → y'.mutex m' = y.mutex m' := fun m' he => by rw [hmx, if_neg he]
  have hua : ∀ m', m' ≠ m → ∀ a, UnitAt y' m' a → UnitAt y m' a := by
    rintro m' he (u | u) ha
    · exact (ht u).unit m' he ha
    · exact (congrArg Mutex.owner (hother m' he)).symm.trans ha
  have hnew : ∀ u, nT ≤ u → (y'.wait u).holdList = [] := by
    refine fun u hle => eq_nil_iff_forall_not_mem.mpr fun m' hm' => ?_
    by_cases he : m' = m
    · exact absurd (ho u ((ht u).mem.mp (he ▸ hm'))) (not_lt.mpr hle)
    · simp [(ht u).others m' he, h.freshT u hle] at hm'
  -- every field: the mutex `m` by its hypothesis, the others as before
  refine ⟨fun m' => ?_, fun m' => ?_, fun m' u => ?_, fun u => (ht u).nodup, fun u => (ht u).locks,
    fun u => (ht u).parked (h.parked u), fun m' hd => ?_, fun m' => ?_, hnew, fun m' hle => ?_⟩ <;>
    by_cases he : m' = m
  · subst he
    rwa [hmm]
  · rw [hother m' he]
    exact (h.unit m').mono le_rfl (hua m' he)
  · exact he ▸ hmm ▸ hmax
  · exact hother m' he ▸ h.max m'
  · subst he
    rw [hmm]
    exact (ht u).mem
  · rw [hother m' he, (ht u).others m' he]
    exact h.hold m' u
  · rw [he, hmm] at hd
    exact absurd hd hlive
  · rw [hother m' he] at hd ⊢
    exact ⟨fun a ha => (h.dead m' hd).1 a (hua m' he a ha),
      (h.dead m' hd).2.imp id fun hno u hund => hno u ((ht u).undecided m' hund)⟩
  · exact he ▸ hmm ▸ harm
  · exact hother m' he ▸ h.armed m'
  · exact absurd hname (not_lt.mpr (he ▸ hle))
  · exact hother m' he ▸ h.freshM m' hle

/-- `t` becomes the owner; the unit comes from the count or from `t`'s own call. -/
theorem Owned.own (hlive : ¬ Dead (y.mutex m)) (ht : t < nT)
    (hmx : ∀ m', y'.mutex m' = if m' = m then { y.mutex m with count := n, owner := some t, depth := 1 }
      else y.mutex m')
    (hw : ∀ u, u ≠ t → y'.wait u = y.wait u)
    (hcall : (y'.wait t).call = .lockRelease m .ok) (hwl : (y'.wait t).waitList = none)
    (hh : (y'.wait t).holdList = (y.wait t).holdList ++ [m])
    (hl : (y'.wait t).locks = (y.wait t).locks ++ [m])
    (hsrc : (0 < (y.mutex m).count ∧ n = (y.mutex m).count - 1) ∨
      (HasUnit (y.wait t) m ∧ n = (y.mutex m).count)) : Owned y' nT nM := by
  have hnu : ∀ m', ¬ HasUnit (y'.wait t) m' := fun m' => by simp [HasUnit, hcall]
  -- no owner before: the unit was elsewhere
  have hno : ∀ u, (y.mutex m).owner ≠ some u := by
    intro u hu
    rcases hsrc with ⟨hc, -⟩ | ⟨hun, -⟩
    · exact (h.unit m).none_of_pos hc (.owner u) hu
    · cases (h.unit m).unique (.owner u) (.call t) hu hun
  have hnh : ∀ u, m ∉ (y.wait u).holdList := fun u hm => hno u ((h.hold m u).mp hm)
  refine h.at hmx hlive (h.name_lt hlive) (h.max m) (h.armed m)
    (fun u hu => some.inj hu ▸ ht) (fun u => ?_) ?_
  · by_cases he : u = t
    · subst he
      refine ⟨⟨fun m' _ hu => absurd hu (hnu m'), fun m' hu => ?_, fun _ => parkedWell_none hwl⟩,
        fun m' hne => by simp [hh, hne], by simp [hh], ?_, by rw [hh, hl, h.locks]⟩
      · simp [Undecided, hcall] at hu
      · rw [hh, nodup_append_comm]
        exact nodup_cons.mpr ⟨hnh u, h.nodup u⟩
    · rw [hw u he]
      exact ⟨.refl _, fun _ _ => Iff.rfl, iff_of_false (hnh u) fun e => he (some.inj e).symm,
        h.nodup u, h.locks u⟩
  · have hto : ∀ a, UnitAt y' m a → a = .owner t ∨ UnitAt y m a ∧ a ≠ .call t := by
      rintro (u | u) ha
      · by_cases he : u = t
        · exact absurd (he ▸ ha) (hnu m)
        · refine .inr ⟨?_, by simpa using he⟩
          have ha' : HasUnit (y'.wait u) m := ha
          rwa [hw u he] at ha'
      · left
        have ha' : (y'.mutex m).owner = some u := ha
        rw [hmx, if_pos rfl] at ha'
        cases ha'
        rfl
    rcases hsrc with ⟨hc, rfl⟩ | ⟨hun, rfl⟩
    · exact (h.unit m).take hc fun a ha => (hto a ha).imp id And.left
    · exact (h.unit m).move (a := .call t) hun hto

/-- The unit moves between the count and the calls of threads. -/
theorem Owned.shift (hlive : ¬ Dead (y.mutex m))
    (hmx : ∀ m', y'.mutex m' = if m' = m then { y.mutex m with count := n } else y.mutex m')
    (hh : ∀ u, (y'.wait u).holdList = (y.wait u).holdList)
    (hl : ∀ u, (y'.wait u).locks = (y.wait u).locks)
    (hg : ∀ u, GainsOnly m (y.wait u) (y'.wait u)) (htok : AtMostOne n (UnitAt y' m)) :
    Owned y' nT nM := by
  refine h.at hmx hlive (h.name_lt hlive) (h.max m) (h.armed m) (fun u hu => ?_)
    (fun u => ⟨hg u, ?_, ?_, ?_, ?_⟩) htok
  · by_contra hle
    simpa [h.freshT u (not_lt.mp hle)] using (h.hold m u).mpr hu
  · exact fun m' _ => by rw [hh]
  · rw [hh]
    exact h.hold m u
  · exact hh u ▸ h.nodup u
  · rw [hh, hl, h.locks]

/-- The owner's `hold_node` is unlinked and `owner` cleared. -/
theorem Owned.release (hlive : ¬ Dead (y.mutex m))
    (hmx : ∀ m', y'.mutex m' = if m' = m then { y.mutex m with count := n, owner := none, depth := 0 }
      else y.mutex m')
    (hh : ∀ u, (y'.wait u).holdList = (y.wait u).holdList.erase m)
    (hl : ∀ u, (y'.wait u).locks = (y.wait u).locks.erase m)
    (hg : ∀ u, GainsOnly m (y.wait u) (y'.wait u)) (htok : AtMostOne n (UnitAt y' m)) :
    Owned y' nT nM := by
  refine h.at hmx hlive (h.name_lt hlive) (h.max m) (h.armed m) (by simp)
    (fun u => ⟨hg u, ?_, ?_, ?_, ?_⟩) htok
  · exact fun m' he => by rw [hh, mem_erase_of_ne he]
  · rw [hh]
    exact iff_of_false (h.nodup u).not_mem_erase (by simp)
  · exact hh u ▸ (h.nodup u).erase m
  · rw [hh, hl, h.locks]

/-- A mutex is marked for destruction while no call can come to own it any more. -/
theorem Owned.destroy (hno : ∀ a, ¬ UnitAt y m a)
    (hc : (y.mutex m).count = 0 ∨ ∀ t, ¬ Undecided m (y.wait t).call) {f : Mutex → Mutex}
    (hcount : (f (y.mutex m)).count ≤ (y.mutex m).count) (hmax : (f (y.mutex m)).maxCount ≤ 1)
    (ho : (f (y.mutex m)).owner = none)
    (harm : (f (y.mutex m)).obj.kill = true → (f (y.mutex m)).obj.timeout = true)
    (hrec : (y.mutex m).reclaimed = true → (f (y.mutex m)).reclaimed = true) :
    Owned (y.modM m f) nT nM := by
  have hmx : ∀ m', (y.modM m f).mutex m' = if m' = m then f (y.mutex m) else y.mutex m' := by
    intro m'
    simp [Sync.modM, Function.update_apply]
  have hua : ∀ m' a, UnitAt (y.modM m f) m' a → UnitAt y m' a := by
    rintro m' (t | t) ha
    · exact ha
    · have ha' : ((y.modM m f).mutex m').owner = some t := ha
      rw [hmx] at ha'
      split at ha'
      · rw [ho] at ha'
        cases ha'
      · exact ha'
  have hown := owner_eq_none hno
  have hcnt : ∀ m', ((y.modM m f).mutex m').count ≤ (y.mutex m').count := by
    intro m'
    rw [hmx]
    split
    · rename_i he
      exact he ▸ hcount
    · exact le_rfl
  refine ⟨fun m' => (h.unit m').mono (hcnt m') (hua m'), fun m' => ?_, fun m' t => ?_, h.nodup,
    h.locks, h.parked, fun m' hd => ?_, fun m' => ?_, h.freshT, fun m' hle => ?_⟩
  · rw [hmx]
    split
    · exact hmax
    · exact h.max m'
  · rw [modM_wait, h.hold m' t, hmx]
    split
    · rename_i he
      rw [ho, he, hown]
    · rfl
  · by_cases he : m' = m
    · subst he
      refine ⟨fun a ha => hno a (hua _ a ha), hc.imp (fun h0 => ?_) id⟩
      have := hcnt m'
      omega
    rw [hmx, if_neg he] at hd
    have hm' := h.dead m' hd
    refine ⟨fun a ha => hm'.1 a (hua m' a ha), ?_⟩
    rw [hmx, if_neg he]
    exact hm'.2
  · rw [hmx]
    split
    · exact harm
    · exact h.armed m'
  · rw [hmx]
    split
    · rename_i he
      exact hrec (he ▸ h.freshM m' hle)
    · exact h.freshM m' hle

end

end moves

end MiniTree.Os
