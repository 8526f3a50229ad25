import MiniTree.Core.LTS
import MiniTree.Core.SingleList
import Mathlib.Data.List.Induction
import Mathlib.Data.List.Nodup
import Mathlib.Data.List.Perm.Basic

/-!
# The slab zone

Model of the slab size classes of src/lib/mini-os/src/memory.c. A zone of `pages` pages is cut once:
page `i` serves class `i % classCount`, whose slots are `miniBytes << class` bytes wide. The free
slots of a class are a singly linked list threaded through the slots themselves, so the model keeps
one `next` map over the class sentinels and the slots. `zoneFree` recovers the class from the offset
of the pointer and keeps no record of what is handed out. Sources: `lib/mini-os/inc`.

The slots handed out and not yet freed (`live`) and the pointers ever handed out (`given`) are
history. A client may overwrite the link of a slot it holds (`Event.write`). The zone of a heap is
used in a critical section; `mini_os_malloc` and `mini_os_free` use the static zone without one, so
that a call can be interrupted between its first access to a list and its last (`Flight`).

**Results.** `slab_safe`: when every page starts at a multiple of its slot size, of the slots only
live ones are freed and no call begins while another one is in progress, live slots never overlap,
each of them is accepted by free and goes back to the class it came from, and the free and live
slots of a class add up to its capacity. `double_free_shares` is a slot freed twice.
-/

namespace MiniTree.Os.Slab

open MiniTree.Core Core.SingleList Function List Nat
open SingleList (init remove)

/-- The slab configuration, with the static asserts it passed.
mirrors mem_heap.h:63-98 -/
structure SlabCfg where
  miniBytes : Nat
  classCount : Nat
  pageSize : Nat
  pages : Nat
  base : Nat
  mini_le : 16 ≤ miniBytes
  count : classCount = 5 ∨ classCount = 6
  page_pow : pageSize &&& (pageSize - 1) = 0
  page_le : pageSize ≤ 1 <<< 16
  max_le : miniBytes <<< (classCount - 1) ≤ pageSize

namespace SlabCfg

section
variable (cfg : SlabCfg) (i : Nat)

/-- `MINI_OS_SLAB_MINI_BYTES << cls`. -/
def slotSize (cls : Nat) : Nat := cfg.miniBytes <<< cls

def zoneSize : Nat := cfg.pages * cfg.pageSize

/-- The loop of `classOf`, which has `k` more classes to try. -/
def classLoop (cfg : SlabCfg) (size : Nat) : Nat → Nat → Nat
  | 0, cls => cls
  | k + 1, cls => if cfg.slotSize cls < size then cfg.classLoop size k (cls + 1) else cls

/-- mirrors memory.c:215-224 (`mini_os_slab_class_of`) -/
def classOf (size : Nat) : Nat :=
  let cls := cfg.classLoop size (cfg.classCount - 1) 0
  if cfg.slotSize cls < size then cfg.classCount else cls

/-- The class of the page that an address lies in. -/
def classAt (ptr : Nat) : Nat := (ptr - cfg.base) / cfg.pageSize % cfg.classCount

/-- An address that is none of the zone, as that of a block of the heap. -/
def Outside (ptr : Nat) : Prop :=
  cfg.zoneSize = 0 ∨ ptr < cfg.base ∨ cfg.base + cfg.zoneSize ≤ ptr
  deriving Decidable

/-- `1` freed, `0` not in the zone, `-1` not at a slot boundary. -/
def freeCode (ptr : Nat) : Int :=
  if cfg.Outside ptr then 0
  else if (ptr - cfg.base) % cfg.slotSize (cfg.classAt ptr) ≠ 0 then -1
  else 1

/-- The slots of page `i`, with their class. -/
def pageSlots : List (Nat × Nat) :=
  let cls := i % cfg.classCount
  (List.range (cfg.pageSize / cfg.slotSize cls)).map fun j =>
    (cls, cfg.base + i * cfg.pageSize + j * cfg.slotSize cls)

/-- The slots of the zone, in the order the zone is cut. -/
def zoneSlots : List (Nat × Nat) := (List.range cfg.pages).flatMap cfg.pageSlots

def classSlots (cls : Nat) : List Nat := (cfg.zoneSlots.filter (·.1 = cls)).map (·.2)

end

end SlabCfg

/-- What a `next` pointer can point at: the sentinel of a class or a slot. -/
inductive Node
  | head (cls : Nat)
  | slot (addr : Nat)
  deriving DecidableEq

abbrev Links := Node → Node

section
variable (cfg : SlabCfg) (next : Links)

def linkSlot (x : Nat × Nat) : Links :=
  addAfter (init next (.slot x.2)) (.head x.1) (.slot x.2)

/-- mirrors memory.c:233-254 (`mini_os_slab_zone_link`) -/
def zoneLink : Links := cfg.zoneSlots.foldl linkSlot next

/-- mirrors memory.c:265-274 (`mini_os_slab_class_alloc`) -/
def classAlloc (cls : Nat) : Option Node × Links :=
  if isEmpty next (.head cls) then (none, next)
  else
    let slot := next (.head cls)
    (some slot, remove next slot (.head cls))

/-- mirrors memory.c:282-303 (`mini_os_slab_zone_free`) -/
def zoneFree (ptr : Nat) : Int × Links :=
  (cfg.freeCode ptr, if cfg.freeCode ptr = 1 then linkSlot next (cfg.classAt ptr, ptr) else next)

/-- mirrors memory.c:355-362, 763-770 (`mini_os_memory_slab_alloc`,
`mini_os_slab_static_alloc`) -/
def slabAlloc (size : Nat) : Option Node × Links :=
  let cls := cfg.classOf size
  if cfg.classCount ≤ cls then (none, next) else classAlloc next cls

end

/-- The zone, the live slots with the class that handed them out, and every pointer handed out. -/
structure Zone where
  next : Links
  live : List (Nat × Nat)
  given : List Nat

inductive Call
  | alloc (size : Nat)
  | free (ptr : Nat)

section
variable (cfg : SlabCfg) (z : Zone)

/-- An allocation. A request of 0 bytes is refused, and one the class cannot serve goes to the free
list; neither touches the zone.
mirrors memory.c:521-545, 848-868 (`mini_os_memory_alloc`, `mini_os_malloc`) -/
def alloc (size : Nat) : Zone :=
  if size = 0 then z
  else
    match slabAlloc cfg z.next size with
    | (some (.slot a), next) => ⟨next, (cfg.classOf size, a) :: z.live, a :: z.given⟩
    | (_, next) => { z with next := next }

/-- mirrors memory.c:562-592, 881-897 (`mini_os_memory_free`, `mini_os_free`) -/
def free (ptr : Nat) : Zone :=
  let r := zoneFree cfg z.next ptr
  if r.1 = 1 then { z with next := r.2, live := z.live.eraseP (·.2 = ptr) } else z

def call : Call → Zone
  | .alloc size => alloc cfg z size
  | .free ptr => free cfg z ptr

/-- The zone as it is set up, in a memory that holds anything: the sentinels are initialised, then
every slot is linked.
mirrors memory.c:326-346, 747-756 (`mini_os_memory_slab_zone_setup`,
`mini_os_slab_static_zone_setup`) -/
def zoneSetup (mem : Links) : Zone where
  next := zoneLink cfg ((List.range cfg.classCount).foldl (fun n c => init n (.head c)) mem)
  live := []
  given := []

end

/-! ## Calls that are interrupted -/

/-- A call on the static zone between its first access and its last: the slot that an allocation
read from the head of its class, or a slot that is linked to the list but not the list to it. -/
inductive Flight
  | alloc (size : Nat) (slot : Node)
  | free (ptr : Nat)
  deriving DecidableEq

/-- The zone and the calls in progress. -/
structure Shared where
  zone : Zone
  flights : List Flight

/-- A call in a critical section, the two halves of a call without one, and a client's write. -/
inductive Event
  | whole (c : Call)
  | enter (c : Call)
  | leave (i : Nat)
  | write (ptr : Nat) (link : Node)

section
variable (cfg : SlabCfg) (z : Zone)

def write (ptr : Nat) (link : Node) : Zone := { z with next := update z.next (.slot ptr) link }

/-- Up to the read of the head, for a call that will change the list.
mirrors memory.c:271-272 (`mini_os_slab_class_alloc`), 298-299 (`mini_os_slab_zone_free`) -/
def enter : Call → Option (Zone × Flight)
  | .alloc size =>
    if size = 0 ∨ cfg.classCount ≤ cfg.classOf size ∨ isEmpty z.next (.head (cfg.classOf size)) then
      none
    else some (z, .alloc size (z.next (.head (cfg.classOf size))))
  | .free ptr =>
    if cfg.freeCode ptr = 1 then
      some (write z ptr (z.next (.head (cfg.classAt ptr))), .free ptr)
    else none

/-- The writes that are left. -/
def leave : Flight → Zone
  | .alloc size slot =>
    let next := remove z.next slot (.head (cfg.classOf size))
    match slot with
    | .slot a => ⟨next, (cfg.classOf size, a) :: z.live, a :: z.given⟩
    | .head _ => { z with next := next }
  | .free ptr =>
    { z with
      next := update z.next (.head (cfg.classAt ptr)) (.slot ptr)
      live := z.live.eraseP (·.2 = ptr) }

def next (s : Shared) : Event → Option Shared
  | .whole c => some { s with zone := call cfg s.zone c }
  | .enter c => (enter cfg s.zone c).map fun r => ⟨r.1, s.flights ++ [r.2]⟩
  | .leave i => s.flights[i]?.map fun f => ⟨leave cfg s.zone f, s.flights.eraseIdx i⟩
  | .write ptr link => some { s with zone := write s.zone ptr link }

end

def sys (cfg : SlabCfg) : LTS Shared Event :=
  LTS.ofFn (fun s => ∃ mem, s = ⟨zoneSetup cfg mem, []⟩) (next cfg)

section
variable (cfg : SlabCfg) (s : Shared)

/-- A client frees only pointers it was given, and writes only to slots it holds. -/
def Client : Event → Prop
  | .whole (.free ptr) | .enter (.free ptr) => ptr ∈ s.zone.given
  | .write ptr _ => ptr ∈ s.zone.live.map (·.2)
  | _ => True

/-- Of the slots, a client frees each one once; it may free blocks of the heap. -/
def FreesLive : Event → Prop
  | .whole (.free ptr) | .enter (.free ptr) =>
    ptr ∈ s.zone.live.map (·.2) ∨ cfg.Outside ptr
  | .write ptr _ => ptr ∈ s.zone.live.map (·.2)
  | _ => True

/-- No call begins while another one is in progress, and nobody writes to a slot that is being
freed. -/
def Alone : Event → Prop
  | .write ptr _ => Flight.free ptr ∉ s.flights
  | .whole _ | .enter _ => s.flights = []
  | .leave _ => True

instance (e : Event) : Decidable (Client s e) := by
  unfold Client
  split <;> infer_instance

instance (e : Event) : Decidable (FreesLive cfg s e) := by
  unfold FreesLive
  split <;> infer_instance

instance (e : Event) : Decidable (Alone s e) := by
  unfold Alone
  split <;> infer_instance

end

def Apart (cfg : SlabCfg) (x y : Nat × Nat) : Prop :=
  x.2 + cfg.slotSize x.1 ≤ y.2 ∨ y.2 + cfg.slotSize y.1 ≤ x.2

/-- What a slab promises. -/
structure Safe (cfg : SlabCfg) (z : Zone) : Prop where
  apart : z.live.Pairwise (Apart cfg)
  returns : ∀ x ∈ z.live, (zoneFree cfg z.next x.2).1 = 1 ∧
    (zoneFree cfg z.next x.2).2 (.head x.1) = .slot x.2
  counts : ∀ cls < cfg.classCount, ∃ fr : List Nat, Ring z.next (.head cls) (fr.map .slot) ∧
    fr.length + (z.live.filter (·.1 = cls)).length = (cfg.classSlots cls).length

/-- Every page starts at a multiple of the size of its slots. -/
def Aligned (cfg : SlabCfg) : Prop :=
  ∀ i < cfg.pages, cfg.slotSize (i % cfg.classCount) ∣ i * cfg.pageSize

/-! ## The slots of a zone -/

section Slots

variable {cfg : SlabCfg}

theorem slotSize_pos (cfg : SlabCfg) (cls : Nat) : 0 < cfg.slotSize cls := by
  have h := cfg.mini_le
  rw [SlabCfg.slotSize, shiftLeft_eq]
  exact Nat.mul_pos (by omega) (Nat.two_pow_pos cls)

variable {x y : Nat × Nat}

theorem mem_pageSlots {i : Nat} : x ∈ cfg.pageSlots i ↔
    x.1 = i % cfg.classCount ∧ ∃ j, j < cfg.pageSize / cfg.slotSize x.1 ∧
      x.2 = cfg.base + i * cfg.pageSize + j * cfg.slotSize x.1 := by
  simp only [SlabCfg.pageSlots, mem_map, mem_range]
  constructor
  · intro ⟨j, hj, he⟩
    subst he
    exact ⟨rfl, j, hj, rfl⟩
  · intro ⟨hc, j, hj, he⟩
    rw [hc] at hj he
    exact ⟨j, hj, Prod.ext hc.symm he.symm⟩

theorem mem_zoneSlots : x ∈ cfg.zoneSlots ↔ ∃ i < cfg.pages, x ∈ cfg.pageSlots i := by
  simp [SlabCfg.zoneSlots]

theorem page_bounds {i : Nat} (hx : x ∈ cfg.pageSlots i) : cfg.base + i * cfg.pageSize ≤ x.2 ∧
      x.2 + cfg.slotSize x.1 ≤ cfg.base + (i + 1) * cfg.pageSize := by
  obtain ⟨-, j, hj, he⟩ := mem_pageSlots.mp hx
  have hle : (j + 1) * cfg.slotSize x.1 ≤ cfg.pageSize :=
    Nat.le_trans (Nat.mul_le_mul_right _ hj) (div_mul_le_self ..)
  rw [succ_mul] at hle ⊢
  omega

theorem apart_of_page_lt {i i' : Nat} (hx : x ∈ cfg.pageSlots i)
    (hy : y ∈ cfg.pageSlots i') (hlt : i < i') : x.2 + cfg.slotSize x.1 ≤ y.2 := by
  have hle : (i + 1) * cfg.pageSize ≤ i' * cfg.pageSize := Nat.mul_le_mul_right _ hlt
  have h1 := (page_bounds hx).2
  have h2 := (page_bounds hy).1
  omega

theorem apart_of_mem (hx : x ∈ cfg.zoneSlots) (hy : y ∈ cfg.zoneSlots)
    (hne : x ≠ y) : Apart cfg x y := by
  obtain ⟨i, -, hx⟩ := mem_zoneSlots.mp hx
  obtain ⟨i', -, hy⟩ := mem_zoneSlots.mp hy
  rcases Nat.lt_trichotomy i i' with hlt | he | hlt
  · exact .inl (apart_of_page_lt hx hy hlt)
  · subst he
    obtain ⟨hc, j, -, hj⟩ := mem_pageSlots.mp hx
    obtain ⟨hc', j', -, hj'⟩ := mem_pageSlots.mp hy
    have hcls : y.1 = x.1 := hc'.trans hc.symm
    unfold Apart
    rw [hcls] at hj' ⊢
    rcases Nat.lt_trichotomy j j' with hlt | he | hlt
    · have hle := Nat.mul_le_mul_right (cfg.slotSize x.1) (succ_le_of_lt hlt)
      rw [succ_mul] at hle
      omega
    · subst he
      exact absurd (Prod.ext hcls.symm (hj.trans hj'.symm)) hne
    · have hle := Nat.mul_le_mul_right (cfg.slotSize x.1) (succ_le_of_lt hlt)
      rw [succ_mul] at hle
      omega
  · exact .inr (apart_of_page_lt hy hx hlt)

theorem slot_inj (hx : x ∈ cfg.zoneSlots) (hy : y ∈ cfg.zoneSlots) (he : x.2 = y.2) : x = y := by
  by_contra hne
  have h1 := slotSize_pos cfg x.1
  have h2 := slotSize_pos cfg y.1
  have hap := apart_of_mem hx hy hne
  unfold Apart at hap
  omega

theorem pageSlots_nodup (cfg : SlabCfg) (i : Nat) : (cfg.pageSlots i).Nodup := by
  apply List.Nodup.map _ nodup_range
  intro j j' he
  have h := congrArg Prod.snd he
  exact eq_of_mul_eq_mul_right (slotSize_pos cfg _) (Nat.add_left_cancel h)

theorem zoneSlots_nodup (cfg : SlabCfg) : cfg.zoneSlots.Nodup := by
  refine nodup_flatMap.mpr ⟨fun i _ => pageSlots_nodup cfg i, ?_⟩
  apply List.Pairwise.imp _ (pairwise_lt_range)
  intro i i' hlt x hx hx'
  have h := apart_of_page_lt hx hx' hlt
  have hpos := slotSize_pos cfg x.1
  omega

/-- The class and the slot boundary are recovered from the offset when the page is aligned. -/
theorem zoneFree_slot (hal : Aligned cfg) {next : Links}
    (hx : x ∈ cfg.zoneSlots) : zoneFree cfg next x.2 = (1, linkSlot next x) := by
  obtain ⟨i, hi, hp⟩ := mem_zoneSlots.mp hx
  have hb := page_bounds hp
  obtain ⟨hc, j, hj, he⟩ := mem_pageSlots.mp hp
  have hpos := slotSize_pos cfg x.1
  have hend : (i + 1) * cfg.pageSize ≤ cfg.pages * cfg.pageSize := Nat.mul_le_mul_right _ hi
  have hin : ¬ cfg.Outside x.2 := by
    unfold SlabCfg.Outside SlabCfg.zoneSize
    omega
  have hpage : (x.2 - cfg.base) / cfg.pageSize = i := by
    rw [succ_mul] at hb
    apply Nat.div_eq_of_lt_le
    · omega
    · rw [succ_mul]
      omega
  have hmod : (x.2 - cfg.base) % cfg.slotSize x.1 = 0 := by
    have hoff : x.2 - cfg.base = i * cfg.pageSize + j * cfg.slotSize x.1 := by omega
    rw [hoff]
    have hd := hal i hi
    rw [← hc] at hd
    exact mod_eq_zero_of_dvd (Nat.dvd_add hd (Nat.dvd_mul_left ..))
  have hcls : cfg.classAt x.2 = x.1 := by
    unfold SlabCfg.classAt
    rw [hpage, hc]
  have hone : cfg.freeCode x.2 = 1 := by
    unfold SlabCfg.freeCode
    rw [if_neg hin, hcls, if_neg (not_not_intro hmod)]
  unfold zoneFree
  rw [if_pos hone, hone, hcls]

end Slots

/-! ## What every run keeps -/

/-- The slots `fr` are free, in the order of the lists, and the others are live. -/
structure Inv (cfg : SlabCfg) (z : Zone) (fr : List (Nat × Nat)) : Prop where
  ring : ∀ cls < cfg.classCount,
    Ring z.next (.head cls) ((fr.filter (·.1 = cls)).map fun x => .slot x.2)
  perm : (fr ++ z.live).Perm cfg.zoneSlots

section Runs

variable {cfg : SlabCfg} {z : Zone} {fr : List (Nat × Nat)}

theorem mem_ring {cls : Nat} {n : Node} : n ∈ (fr.filter (·.1 = cls)).map (fun x => Node.slot x.2) ↔
      ∃ a, (cls, a) ∈ fr ∧ n = .slot a := by
  simp only [mem_map, mem_filter, decide_eq_true_eq]
  constructor
  · intro ⟨x, ⟨hx, hc⟩, he⟩
    subst hc
    exact ⟨x.2, hx, he.symm⟩
  · intro ⟨a, ha, he⟩
    exact ⟨(cls, a), ⟨ha, rfl⟩, he.symm⟩

/-- Linking a slot pushes it on the list of its class and leaves the others alone. -/
theorem Ring.linkSlot {next : Links} {x : Nat × Nat} (h : ∀ cls < cfg.classCount,
      Ring next (.head cls) ((fr.filter (·.1 = cls)).map fun x => .slot x.2))
    (hx : ∀ y ∈ fr, y.2 ≠ x.2) : ∀ cls < cfg.classCount,
      Ring (linkSlot next x) (.head cls) (((x :: fr).filter (·.1 = cls)).map fun x => .slot x.2) := by
  intro cls hcls
  have hnot : Node.slot x.2 ∉ (fr.filter (·.1 = cls)).map fun x => Node.slot x.2 := by
    intro hm
    obtain ⟨a, ha, he⟩ := mem_ring.mp hm
    exact hx _ ha (Node.slot.inj he).symm
  by_cases hc : x.1 = cls
  · rw [filter_cons_of_pos (by simpa using hc), map_cons, Slab.linkSlot, hc]
    exact (h cls hcls).push Node.noConfusion hnot
  rw [filter_cons_of_neg (by simpa using hc)]
  apply (h cls hcls).congr
  intro n hn
  have hhead : n ≠ .head x.1 := by
    rcases hn with he | hn
    · subst he
      intro he
      exact hc (Node.head.inj he).symm
    · obtain ⟨a, -, he⟩ := mem_ring.mp hn
      subst he
      exact Node.noConfusion
  have hslot : n ≠ .slot x.2 := by
    rcases hn with he | hn
    · subst he
      exact Node.noConfusion
    · intro he
      exact hnot (he ▸ hn)
  rw [Slab.linkSlot, addAfter_of_ne hhead hslot, init_of_ne hslot]

theorem foldl_linkSlot (l : List (Nat × Nat)) (next : Links)
    (h0 : ∀ cls < cfg.classCount, Ring next (.head cls) [])
    (hl : l.Nodup) (hmem : ∀ x ∈ l, x ∈ cfg.zoneSlots) : ∀ cls < cfg.classCount,
      Ring (l.foldl linkSlot next) (.head cls)
        ((l.reverse.filter (·.1 = cls)).map fun x => .slot x.2) := by
  induction l using List.reverseRecOn with
  | nil => exact h0
  | append_singleton l x ih =>
    obtain ⟨hl, -, hdis⟩ := nodup_append.mp hl
    rw [foldl_append, reverse_append]
    apply Ring.linkSlot (ih hl fun y hy => hmem y (mem_append_left _ hy))
    intro y hy he
    rw [mem_reverse] at hy
    have hyx := slot_inj (hmem y (mem_append_left _ hy)) (hmem x (by simp)) he
    exact hdis y hy x (by simp) hyx

theorem foldl_init (mem : Links) (n cls : Nat) (hcls : cls < n) :
    (List.range n).foldl (fun m c => init m (.head c)) mem (.head cls) = .head cls := by
  induction n with
  | zero => omega
  | succ n ih =>
    rw [range_succ, foldl_append]
    by_cases he : cls = n
    · subst he
      exact update_self ..
    · have hne : Node.head cls ≠ .head n := fun h => he (Node.head.inj h)
      exact (init_of_ne hne).trans (ih (by omega))

theorem inv_zoneSetup (cfg : SlabCfg) (mem : Links) :
    Inv cfg (zoneSetup cfg mem) cfg.zoneSlots.reverse where
  ring := by
    apply foldl_linkSlot _ _ _ (zoneSlots_nodup cfg) fun _ h => h
    intro cls hcls
    exact Ring.nil (foldl_init mem _ cls hcls)
  perm := by simp [zoneSetup]

namespace Inv

theorem nodup (hi : Inv cfg z fr) : (fr ++ z.live).Nodup :=
  hi.perm.nodup_iff.mpr (zoneSlots_nodup cfg)

variable {x : Nat × Nat} {ptr cls : Nat}

section
variable (hi : Inv cfg z fr)
include hi

theorem mem_zone (hx : x ∈ fr ++ z.live) : x ∈ cfg.zoneSlots :=
  hi.perm.mem_iff.mp hx

theorem mem_live (hx : x ∈ z.live) : x ∈ cfg.zoneSlots :=
  hi.mem_zone (mem_append_right _ hx)

/-- No free slot has the address of a live one. -/
theorem live_ne_free (hx : x ∈ z.live) : ∀ y ∈ fr, y.2 ≠ x.2 := by
  intro y hy he
  have hyx := slot_inj (hi.mem_zone (mem_append_left _ hy)) (hi.mem_live hx) he
  exact (nodup_append.mp hi.nodup).2.2 y hy x hx hyx

theorem write {link : Node} (hp : ptr ∈ z.live.map (·.2)) : Inv cfg (write z ptr link) fr where
  ring := by
    obtain ⟨x, hx, he⟩ := mem_map.mp hp
    intro cls hcls
    apply (hi.ring cls hcls).congr
    intro n hn
    apply update_of_ne
    rcases hn with hn | hn
    · subst hn
      exact Node.noConfusion
    obtain ⟨a, ha, hn⟩ := mem_ring.mp hn
    subst hn
    intro hs
    exact hi.live_ne_free hx _ ha ((Node.slot.inj hs).trans he.symm)
  perm := hi.perm

theorem free (hal : Aligned cfg) (hp : ptr ∈ z.live.map (·.2)) :
    ∃ fr', Inv cfg (Slab.free cfg z ptr) fr' := by
  obtain ⟨x, hx, he⟩ := mem_map.mp hp
  obtain ⟨y, l1, l2, -, hy, hl, hl'⟩ :=
    exists_of_eraseP hx (p := fun x => decide (x.2 = ptr)) (by simpa using he)
  have hym : y ∈ z.live := by simp [hl]
  have hyp : y.2 = ptr := by simpa using hy
  refine ⟨y :: fr, ?_, ?_⟩ <;> rw [Slab.free, ← hyp, zoneFree_slot hal (hi.mem_live hym)]
  · exact Ring.linkSlot hi.ring (hi.live_ne_free hym)
  · have hlive : z.live.eraseP (fun x => decide (x.2 = y.2)) = l1 ++ l2 := by rw [hyp, hl']
    simp only [if_true, hlive]
    have hperm := hi.perm
    rw [hl] at hperm
    refine .trans ?_ hperm
    rw [cons_append]
    exact (perm_middle.symm).trans ((perm_middle.symm).append_left fr)

/-- A class either has no free slot or hands out the first one of its list. -/
theorem classAlloc_cases (hcls : cls < cfg.classCount) :
    classAlloc z.next cls = (none, z.next) ∨ ∃ x l, fr.filter (·.1 = cls) = x :: l ∧
      classAlloc z.next cls =
        (some (.slot x.2), remove z.next (.slot x.2) (.head cls)) := by
  have hr := hi.ring cls hcls
  unfold classAlloc
  split
  · exact .inl rfl
  rename_i hne
  right
  cases hf : fr.filter (·.1 = cls) with
  | nil =>
    rw [hf] at hr
    exact absurd (hr.isEmpty_iff.mpr rfl) hne
  | cons x l =>
    rw [hf] at hr
    refine ⟨x, l, rfl, ?_⟩
    rw [hr.next_eq]

theorem take {l : List (Nat × Nat)} (hcls : cls < cfg.classCount)
    (hf : fr.filter (·.1 = cls) = x :: l) (given : List Nat) :
    Inv cfg ⟨remove z.next (.slot x.2) (.head cls), (cls, x.2) :: z.live, given⟩ (fr.erase x) := by
  have hxf : x ∈ fr.filter (·.1 = cls) := hf ▸ mem_cons_self
  obtain ⟨hx, hc⟩ := mem_filter.mp hxf
  have hc : x.1 = cls := by simpa using hc
  have hnd := (nodup_append.mp hi.nodup).1
  -- the list of a class without the slot taken
  have hfilter : ∀ c, (fr.erase x).filter (·.1 = c) = (fr.filter (·.1 = c)).erase x := by
    intro c
    rw [hnd.erase_eq_filter, (hnd.filter _).erase_eq_filter, filter_filter, filter_filter]
    congr 1
    funext y
    exact Bool.and_comm ..
  refine ⟨?_, ?_⟩
  · intro c hlt
    rw [hfilter c]
    by_cases he : c = cls
    · subst he
      have hr := hi.ring c hlt
      rw [hf] at hr ⊢
      rw [erase_cons_head]
      exact hr.remove
    have hnot : x ∉ fr.filter (·.1 = c) := by
      intro hm
      exact he ((of_decide_eq_true (mem_filter.mp hm).2).symm.trans hc)
    rw [erase_of_not_mem hnot]
    apply (hi.ring c hlt).congr
    intro n hn
    change remove z.next (.slot x.2) (.head cls) n = z.next n
    rcases hn with hn | hn
    · subst hn
      refine remove_of_ne ?_ ?_
      · intro h
        exact he (Node.head.inj h)
      · exact Node.noConfusion
    obtain ⟨a, ha, hn⟩ := mem_ring.mp hn
    subst hn
    refine remove_of_ne ?_ ?_
    · exact Node.noConfusion
    · intro hs
      have hax := slot_inj (hi.mem_zone (mem_append_left _ ha))
        (hi.mem_zone (mem_append_left _ hx)) (Node.slot.inj hs)
      exact he ((congrArg Prod.fst hax).trans hc)
  · have hx2 : (cls, x.2) = x := Prod.ext hc.symm rfl
    rw [hx2]
    refine .trans ?_ hi.perm
    refine perm_middle.trans ?_
    rw [← cons_append]
    exact (perm_cons_erase hx).symm.append_right _

theorem alloc (size : Nat) : ∃ fr', Inv cfg (Slab.alloc cfg z size) fr' := by
  unfold Slab.alloc slabAlloc
  by_cases hs : size = 0
  · exact ⟨fr, by rwa [if_pos hs]⟩
  rw [if_neg hs]
  by_cases hc : cfg.classCount ≤ cfg.classOf size
  · exact ⟨fr, by simpa only [if_pos hc] using hi⟩
  have hcls : cfg.classOf size < cfg.classCount := Nat.lt_of_not_le hc
  simp only [if_neg hc]
  rcases hi.classAlloc_cases hcls with he | ⟨x, l, hf, he⟩
  · rw [he]
    exact ⟨fr, hi⟩
  · rw [he]
    exact ⟨fr.erase x, hi.take hcls hf _⟩

theorem safe (hal : Aligned cfg) : Safe cfg z where
  apart := by
    apply List.Nodup.pairwise_of_forall_ne (nodup_append.mp hi.nodup).2.1
    intro x hx y hy hne
    exact apart_of_mem (hi.mem_live hx) (hi.mem_live hy) hne
  returns x hx := by
    rw [zoneFree_slot hal (hi.mem_live hx)]
    exact ⟨rfl, update_self ..⟩
  counts cls hcls := by
    refine ⟨(fr.filter (·.1 = cls)).map (·.2), ?_, ?_⟩
    · rw [map_map]
      exact hi.ring cls hcls
    · have hlen := (hi.perm.filter (·.1 = cls)).length_eq
      rw [filter_append, length_append] at hlen
      simpa [SlabCfg.classSlots] using hlen

end

end Inv

/-- What a call in progress has read is still so. -/
def Flight.Fits (cfg : SlabCfg) (z : Zone) : Flight → Prop
  | .alloc size slot => ¬ (size = 0 ∨ cfg.classCount ≤ cfg.classOf size ∨
      isEmpty z.next (.head (cfg.classOf size))) ∧ slot = z.next (.head (cfg.classOf size))
  | .free ptr => ptr ∈ z.live.map (·.2) ∧ cfg.freeCode ptr = 1 ∧
      z.next (.slot ptr) = z.next (.head (cfg.classAt ptr))

/-- The call that is in progress. -/
def Flight.call : Flight → Call
  | .alloc size _ => .alloc size
  | .free ptr => .free ptr

variable {f : Flight} {s s' : Shared} {e : Event} {c : Call}

/-- The rest of a call whose reads are still so does what the whole call does now. -/
theorem leave_eq (h : f.Fits cfg z) : leave cfg z f = call cfg z f.call := by
  cases f with
  | alloc size slot =>
    obtain ⟨hgo, rfl⟩ := h
    obtain ⟨h0, hc, he⟩ := not_or.mp hgo |>.imp_right not_or.mp
    change _ = Slab.alloc cfg z size
    unfold leave Slab.alloc slabAlloc classAlloc
    rw [if_neg h0]
    simp only [if_neg hc, if_neg he]
    cases z.next (.head (cfg.classOf size)) <;> rfl
  | free ptr =>
    obtain ⟨-, hone, hlink⟩ := h
    have hlinked : linkSlot z.next (cfg.classAt ptr, ptr) =
        update z.next (.head (cfg.classAt ptr)) (.slot ptr) := by
      unfold linkSlot addAfter init
      rw [update_idem, update_of_ne Node.noConfusion, ← hlink, update_eq_self]
    change _ = Slab.free cfg z ptr
    unfold leave Slab.free zoneFree
    simp only [hone, if_true, hlinked]

theorem write_head (z : Zone) (ptr : Nat) (link : Node) (cls : Nat) :
    (write z ptr link).next (.head cls) = z.next (.head cls) := by
  have hne : Node.head cls ≠ .slot ptr := Node.noConfusion
  exact update_of_ne hne link z.next

/-- A write to another slot leaves what a call in progress has read. -/
theorem Flight.Fits.write (h : f.Fits cfg z) {ptr : Nat} (hne : f ≠ .free ptr) (link : Node) :
    f.Fits cfg (write z ptr link) := by
  cases f with
  | alloc size slot =>
    simpa only [Flight.Fits, SingleList.isEmpty, write_head] using h
  | free p =>
    obtain ⟨hp, hone, hlink⟩ := h
    have hslot : (Slab.write z ptr link).next (.slot p) = z.next (.slot p) :=
      update_of_ne (fun he => hne (congrArg Flight.free (Node.slot.inj he))) ..
    exact ⟨hp, hone, by rw [hslot, write_head, hlink]⟩

theorem enter_spec (hi : Inv cfg z fr) (hl : ∀ ptr, c = .free ptr →
      ptr ∈ z.live.map (·.2) ∨ cfg.Outside ptr) {r : Zone × Flight}
    (h : enter cfg z c = some r) : Inv cfg r.1 fr ∧ r.2.Fits cfg r.1 := by
  cases c with
  | alloc size =>
    obtain ⟨hgo, hr⟩ := Option.ite_none_left_eq_some.mp h
    obtain rfl := Option.some.inj hr
    exact ⟨hi, hgo, rfl⟩
  | free ptr =>
    obtain ⟨hone, hr⟩ := Option.ite_none_right_eq_some.mp h
    obtain rfl := Option.some.inj hr
    have hp : ptr ∈ z.live.map (·.2) := by
      refine (hl ptr rfl).resolve_right fun hout => ?_
      rw [SlabCfg.freeCode, if_pos hout] at hone
      cases hone
    refine ⟨hi.write hp, hp, hone, ?_⟩
    rw [write_head]
    exact update_self ..

theorem Inv.call (hal : Aligned cfg) (hi : Inv cfg z fr) (hl : ∀ ptr, c = .free ptr →
      ptr ∈ z.live.map (·.2) ∨ cfg.Outside ptr) : ∃ fr', Inv cfg (call cfg z c) fr' := by
  cases c with
  | alloc size => exact hi.alloc size
  | free ptr =>
    rcases hl ptr rfl with hp | hout
    · exact hi.free hal hp
    · have hzero : cfg.freeCode ptr = 0 := if_pos hout
      refine ⟨fr, ?_⟩
      change Inv cfg (Slab.free cfg z ptr) fr
      unfold Slab.free zoneFree
      rw [hzero]
      exact hi

/-- The invariant of the zone, and at most one call in progress. -/
def SharedInv (cfg : SlabCfg) (s : Shared) : Prop :=
  (∃ fr, Inv cfg s.zone fr) ∧ (s.flights = [] ∨ ∃ f, s.flights = [f] ∧ f.Fits cfg s.zone)

theorem SharedInv.step (hal : Aligned cfg) (h : SharedInv cfg s) (hf : FreesLive cfg s e)
    (ha : Alone s e) (hn : next cfg s e = some s') : SharedInv cfg s' := by
  obtain ⟨⟨fr, hi⟩, hfl⟩ := h
  cases e with
  | whole c =>
    cases hn
    exact ⟨hi.call hal fun ptr hc => by subst hc; exact hf, .inl ha⟩
  | enter c =>
    obtain ⟨r, hr, rfl⟩ := Option.map_eq_some_iff.mp hn
    obtain ⟨hi', hfits⟩ := enter_spec hi (fun ptr hc => by subst hc; exact hf) hr
    have ha : s.flights = [] := ha
    exact ⟨⟨fr, hi'⟩, .inr ⟨r.2, by rw [ha]; rfl, hfits⟩⟩
  | leave i =>
    obtain ⟨f, hget, rfl⟩ := Option.map_eq_some_iff.mp hn
    obtain hnil | ⟨f', hone, hfits⟩ := hfl
    · rw [hnil] at hget
      cases hget
    rw [hone] at hget ⊢
    obtain ⟨rfl, rfl⟩ : i = 0 ∧ f' = f := by
      cases i with
      | zero => exact ⟨rfl, Option.some.inj hget⟩
      | succ i => cases hget
    rw [leave_eq hfits]
    refine ⟨hi.call hal fun ptr hc => ?_, .inl rfl⟩
    cases f' with
    | alloc => cases hc
    | free p =>
      cases hc
      exact .inl hfits.1
  | write ptr link =>
    cases hn
    refine ⟨⟨fr, hi.write hf⟩, hfl.imp_right fun ⟨f, hone, hfits⟩ => ⟨f, hone, hfits.write ?_ link⟩⟩
    rintro rfl
    exact ha (hone ▸ mem_singleton_self _)

end Runs

/-! ## Safety -/

theorem slab_safe (cfg : SlabCfg) (hal : Aligned cfg) {s : Shared}
    (hr : ((sys cfg).restrict fun s e => FreesLive cfg s e ∧ Alone s e).Reachable s) :
    Safe cfg s.zone := by
  have hinv : ((sys cfg).restrict fun s e => FreesLive cfg s e ∧ Alone s e).IsInvariant
      (SharedInv cfg) := by
    refine ⟨fun s h0 => ?_, fun _ _ _ h hn => h.step hal hn.1.1 hn.1.2 hn.2⟩
    obtain ⟨mem, rfl⟩ := h0
    exact ⟨⟨_, inv_zoneSetup cfg mem⟩, .inl rfl⟩
  obtain ⟨⟨fr, hi⟩, -⟩ := hinv.holds hr
  exact hi.safe hal

def onePage : SlabCfg where
  miniBytes := 16
  classCount := 5
  pageSize := 256
  pages := 1
  base := 4096
  mini_le := by decide
  count := by decide
  page_pow := by decide
  page_le := by decide
  max_le := by decide

/-- Slots are taken and given back by whole calls and by halves, with a write to another slot in
between, and a block of the heap is freed. -/
theorem slab_safe_reuse :
    ∃ s, ((sys onePage).restrict fun s e => FreesLive onePage s e ∧ Alone s e).Reachable s ∧
      Safe onePage s.zone ∧ s.zone.live = [(0, 4336), (0, 4320)] := by
  obtain ⟨s, hr, hp⟩ := LTS.Reachable.of_execOk (sys onePage).init (next onePage)
    (fun s e => FreesLive onePage s e ∧ Alone s e) ⟨zoneSetup onePage id, []⟩
    [.whole (.alloc 16), .enter (.alloc 10), .write 4336 (.slot 0), .leave 0, .enter (.free 4336),
      .leave 0, .whole (.free 16), .whole (.alloc 1)]
    (fun s => s.zone.live = [(0, 4336), (0, 4320)]) ⟨id, rfl⟩ (by decide +kernel)
  have hal : Aligned onePage := by
    intro i hi
    have h0 : i = 0 := lt_one_iff.mp hi
    subst h0
    exact ⟨0, by decide⟩
  exact ⟨s, hr, slab_safe onePage hal hr, hp⟩

/-- A slot freed twice is handed out twice, also when no call is interrupted. -/
theorem double_free_shares :
    ∃ s, ((sys onePage).restrict fun s e => Client s e ∧ Alone s e).Reachable s ∧
      ¬ Safe onePage s.zone := by
  obtain ⟨s, hr, hp⟩ := LTS.Reachable.of_execOk (sys onePage).init (next onePage)
    (fun s e => Client s e ∧ Alone s e) ⟨zoneSetup onePage id, []⟩
    [.whole (.alloc 16), .whole (.free 4336), .whole (.free 4336), .whole (.alloc 16),
      .whole (.alloc 16)]
    (fun s => s.zone.live = [(0, 4336), (0, 4336)]) ⟨id, rfl⟩ (by decide +kernel)
  refine ⟨s, hr, fun hs => ?_⟩
  have hlive : s.zone.live = [(0, 4336), (0, 4336)] := hp
  have hap := hs.apart
  rw [hlive] at hap
  have h := (pairwise_cons.mp hap).1 (0, 4336) mem_cons_self
  rcases h with h | h <;> exact absurd h (by decide)

end MiniTree.Os.Slab
