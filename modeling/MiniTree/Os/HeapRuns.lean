import MiniTree.Os.Heap

/-!
# Runs of the heap

Allocations, frees of held pointers, expansions and client writes in any order.

**Results.** `heap_tiled`: the blocks partition the segments, the free list holds every free block
once and no two that touch, and the counters and magics agree with it.
-/

namespace MiniTree.Os.Heap

open MiniTree.Core Function List Option
open Heap (push setSize)

variable {maxSegs : Nat} {h h' : Heap} {mem len : Nat} {p : Nat} {staticMem staticLen : Nat}
  {segs : List (Nat × Nat)} {magic : Nat → UInt32} {size : Nat → Nat}

structure Inv (h : Heap) : Prop where
  shape : Shape h h.blocks
  free : ∀ b ∈ h.freeList, h.magic b = magicFree
  handed : ∀ b, b + hdrSize ∈ h.handed → b ∉ h.freeList ∧ h.magic b = magicAlloc
  above : ∀ p ∈ h.handed, hdrSize ≤ p
  handedNodup : h.handed.Nodup
  live : ∀ p ∈ h.live, p ∈ h.handed
  liveNodup : h.live.Nodup
  space : ∀ s ∈ h.segs, 0 < s.1 ∧ s.1 + s.2 ≤ 2 ^ 32

theorem Inv.header (hi : Inv h) (hp : p ∈ h.handed) : p - hdrSize + hdrSize = p :=
  Nat.sub_add_cancel (hi.above p hp)

/-! ## Allocation -/

def handOut (h : Heap) (it size : Nat) : Heap :=
  { { h.take it size with
      magic := update (h.take it size).magic it magicAlloc }.countAlloc with
    live := (it + hdrSize) :: (h.take it size).live
    handed := (it + hdrSize) :: (h.take it size).handed }

theorem memoryAlloc_cases (h : Heap) (size : Nat) : h.memoryAlloc size = (none, h) ∨
    ∃ it ∈ h.freeList, alignUp size ≤ h.size it ∧
      h.memoryAlloc size = (some (it + hdrSize), h.handOut it (alignUp size)) := by
  unfold memoryAlloc
  split
  · exact .inl rfl
  unfold freelistAlloc
  cases hfind : h.freeList.find? fun it => decide (alignUp size ≤ h.size it) with
  | none => exact .inl rfl
  | some it =>
    refine .inr ⟨it, mem_of_find?_eq_some hfind, ?_, rfl⟩
    simpa using List.find?_some hfind

theorem blocks_handOut (h : Heap) (it size : Nat) :
    (h.handOut it size).blocks = insert it (h.take it size).blocks := by
  ext b
  have hcons : b + hdrSize ∈ (it + hdrSize) :: (h.take it size).handed ↔
      b = it ∨ b + hdrSize ∈ (h.take it size).handed := by
    rw [mem_cons]
    simp
  change b ∈ (h.take it size).freeList ∨ b + hdrSize ∈ (it + hdrSize) :: _ ↔
    b = it ∨ b ∈ (h.take it size).freeList ∨ _
  rw [hcons]
  exact or_left_comm

/-- The block is the newest one that is handed out, and held. -/
theorem Taken.handOut {it size : Nat} (ht : Taken h it size (h.take it size)) :
    (h.handOut it size).handed = (it + hdrSize) :: h.handed ∧
      (h.handOut it size).live = (it + hdrSize) :: h.live :=
  ⟨congrArg (cons _) ht.same.handed, congrArg (cons _) ht.same.live⟩

theorem Inv.handOut (hi : Inv h) {it size : Nat} (hit : it ∈ h.freeList) (hsize : size ≤ h.size it) :
    Inv (h.handOut it size) := by
  have ht := hi.shape.take hit hsize hi.free
  obtain ⟨hhanded, hlive⟩ := ht.handOut
  have hnew : it + hdrSize ∉ h.handed := fun hm => (hi.handed it hm).1 hit
  have hmagic : ∀ b, b ≠ it → (h.handOut it size).magic b = (h.take it size).magic b := fun b hb =>
    update_of_ne hb ..
  refine ⟨?_, ?_, ?_, ?_, ?_, ?_, ?_, ?_⟩
  · rw [blocks_handOut]
    exact { ht.shape with }
  · intro b hb
    have hne : b ≠ it := fun he => ht.notFree (he ▸ hb)
    exact (hmagic b hne).trans (ht.free b hb)
  · intro b hb
    by_cases hne : b = it
    · subst hne
      exact ⟨ht.notFree, update_self ..⟩
    have hb' : b + hdrSize ∈ h.handed := by
      rw [hhanded] at hb
      exact (mem_cons.mp hb).resolve_left (by omega)
    obtain ⟨hbf, hbm⟩ := hi.handed b hb'
    obtain ⟨-, hm, hf⟩ := ht.kept b (.inr hb') hbf
    exact ⟨hf, (hmagic b hne).trans (hm.trans hbm)⟩
  · rw [hhanded]
    exact forall_mem_cons.mpr ⟨Nat.le_add_left .., hi.above⟩
  · rw [hhanded]
    exact nodup_cons.mpr ⟨hnew, hi.handedNodup⟩
  · rw [hhanded, hlive]
    exact forall_mem_cons.mpr ⟨mem_cons_self, fun p hp => mem_cons_of_mem _ (hi.live p hp)⟩
  · rw [hlive]
    exact nodup_cons.mpr ⟨fun hm => hnew (hi.live _ hm), hi.liveNodup⟩
  · intro s hs
    exact hi.space s (ht.same.segs ▸ hs)

theorem Inv.alloc (hi : Inv h) (size : Nat) : Inv (h.memoryAlloc size).2 := by
  rcases memoryAlloc_cases h size with he | ⟨it, hit, hsize, he⟩
  · rw [he]
    exact hi
  · rw [he]
    exact hi.handOut hit hsize

/-! ## Free -/

/-- The heap behind the header checks of a free of `p`. -/
def marked (h : Heap) (p : Nat) : Heap :=
  { h with magic := update h.magic (p - hdrSize) magicFree, handed := h.handed.erase p }

theorem Inv.put (hi : Inv h) (hp : p ∈ h.handed) :
    Put (h.marked p) (p - hdrSize) ((h.marked p).merge (p - hdrSize)) := by
  have hback := hi.header hp
  obtain ⟨hfree, -⟩ := hi.handed (p - hdrSize) (hback ▸ hp)
  have herase : ∀ b, b + hdrSize ∈ h.handed.erase p ↔ b ≠ p - hdrSize ∧ b + hdrSize ∈ h.handed := by
    intro b
    rw [hi.handedNodup.mem_erase_iff]
    constructor
    · intro hb
      exact ⟨by omega, hb.2⟩
    · intro hb
      exact ⟨by omega, hb.2⟩
  have hblocks : insert (p - hdrSize) (h.marked p).blocks = h.blocks := by
    ext b
    change b = p - hdrSize ∨ b ∈ h.freeList ∨ b + hdrSize ∈ h.handed.erase p ↔
      b ∈ h.freeList ∨ b + hdrSize ∈ h.handed
    rw [herase]
    constructor
    · intro hb
      rcases hb with rfl | hb | hb
      · exact .inr (hback ▸ hp)
      · exact .inl hb
      · exact .inr hb.2
    · intro hb
      by_cases hne : b = p - hdrSize
      · exact .inl hne
      · rcases hb with hb | hb
        · exact .inr (.inl hb)
        · exact .inr (.inr ⟨hne, hb⟩)
  refine Shape.merge ?_ hfree ?_ ?_ ?_
  · rw [hblocks]
    exact { hi.shape with }
  · exact fun hm => ((herase _).mp hm).1 rfl
  · exact fun b hb => (hi.handed b ((herase b).mp hb).2).1
  · intro b hb
    have hne : b ≠ p - hdrSize := fun he => hfree (he ▸ hb)
    exact (update_of_ne hne ..).trans (hi.free b hb)

/-- A free of a held pointer: the block goes back, unless its size is not a multiple of 8. -/
theorem Inv.freelistFree (hi : Inv h) (hp : p ∈ h.handed) :
    h.freelistFree p = if h.size (p - hdrSize) % 8 ≠ 0 then h
      else (h.marked p).merge (p - hdrSize) := by
  have hm := (hi.handed (p - hdrSize) (hi.header hp ▸ hp)).2
  exact if_neg fun hne => hne hm

theorem Inv.ofPut (hi : Inv h) {h₁ : Heap} {blk : Nat} (hput : Put h₁ blk h')
    (hhanded : ∀ b, b + hdrSize ∈ h₁.handed → h₁.magic b = magicAlloc)
    (habove : ∀ p ∈ h₁.handed, p ∈ h.handed) (hnodup : h₁.handed.Nodup)
    (hspace : ∀ s ∈ h₁.segs, 0 < s.1 ∧ s.1 + s.2 ≤ 2 ^ 32) (live : List Nat) (hlive : live.Nodup)
    (hsub : ∀ p ∈ live, p ∈ h₁.handed) (used : Nat) (totalSize : BitVec 32) :
    Inv { h' with live := live, used := used, totalSize := totalSize } := by
  have hkept := hput.kept
  rw [← hput.same.handed] at hhanded habove hnodup hsub hkept
  refine ⟨?_, hput.free, ?_, fun p hp => hi.above p (habove p hp), hnodup, hsub, hlive, ?_⟩
  · have hs := hput.shape
    exact { hs with }
  · intro b hb
    obtain ⟨-, hm, hf⟩ := hkept b hb
    exact ⟨hf, hm.trans (hhanded b hb)⟩
  · intro s hs
    exact hspace s (hput.same.segs ▸ hs)

theorem Inv.free_ (hi : Inv h) (hp : p ∈ h.live) : Inv (h.memoryFree p).1 := by
  have hph := hi.live p hp
  have hliveErase := hi.liveNodup.erase p
  unfold memoryFree
  split
  · exact hi
  split
  · rw [hi.freelistFree hph]
    split
    · refine { hi with shape := ?_, live := ?_, liveNodup := hliveErase }
      · have hs := hi.shape
        exact { hs with }
      · exact fun q hq => hi.live q (mem_of_mem_erase hq)
    have hne : ∀ q ∈ h.handed.erase p, q ≠ p ∧ q ∈ h.handed := fun q hq =>
      hi.handedNodup.mem_erase_iff.mp hq
    refine hi.ofPut (hi.put hph) ?_ ?_ (hi.handedNodup.erase p) hi.space _ hliveErase ?_ _ _
    · intro b hb
      obtain ⟨hbp, hb⟩ := hne _ hb
      have hback := hi.header hph
      have hne : b ≠ p - hdrSize := by omega
      exact (update_of_ne hne ..).trans (hi.handed b hb).2
    · exact fun q hq => (hne q hq).2
    · intro q hq
      obtain ⟨hqp, hq⟩ := hi.liveNodup.mem_erase_iff.mp hq
      exact hi.handedNodup.mem_erase_iff.mpr ⟨hqp, hi.live q hq⟩
  · exact hi

/-! ## Expansion -/

theorem segAdd_eq {segs segs' : List (Nat × Nat)} {base len : Nat}
    (ha : segAdd maxSegs segs base len = some segs') : segs'.Perm ((base, len) :: segs) := by
  obtain ⟨-, ⟨⟩⟩ := ite_none_left_eq_some.mp ha
  refine perm_middle.trans (List.Perm.cons _ ?_)
  rw [takeWhile_append_dropWhile]

theorem forall_segAdd (ha : segAdd maxSegs h.segs mem len = some segs) {P : Nat × Nat → Prop} :
    (∀ s ∈ segs, P s) ↔ P (mem, len) ∧ ∀ s ∈ h.segs, P s :=
  (forall_congr' fun _ => imp_congr_left (segAdd_eq ha).mem_iff).trans forall_mem_cons

theorem managed_segAdd (ha : segAdd maxSegs h.segs mem len = some segs) :
    { h with segs := segs }.managed = h.managed ∪ {a | mem ≤ a ∧ a < mem + len} := by
  ext a
  change (∃ s ∈ segs, s.1 ≤ a ∧ a < s.1 + s.2) ↔ (∃ s ∈ h.segs, _) ∨ mem ≤ a ∧ a < mem + len
  rw [or_comm, ← exists_mem_cons_iff (fun s : Nat × Nat => s.1 ≤ a ∧ a < s.1 + s.2) (mem, len)]
  exact exists_congr fun s => and_congr_left' (segAdd_eq ha).mem_iff

/-- The new segment, before it is coalesced. -/
theorem Inv.extended (hi : Inv h)
    (hlen : hdrSize + minBlock ≤ len) (hap : ∀ s ∈ h.segs, mem + len ≤ s.1 ∨ s.1 + s.2 ≤ mem)
    (ha : segAdd maxSegs h.segs mem len = some segs) :
    Put ({ h with segs := segs }.setSize mem (len - hdrSize)) mem
      (({ h with segs := segs }.setSize mem (len - hdrSize)).merge mem) := by
  have hout : ∀ a, mem ≤ a → a < mem + len → a ∉ h.managed := by
    intro a h1 h2 hm
    obtain ⟨s, hs, h3, h4⟩ := hm
    have := hap s hs
    omega
  have hmem : mem ∉ h.blocks := by
    intro hb
    exact hout mem (le_refl _) (by unfold hdrSize at hlen; omega) (hi.shape.part.start_mem hb)
  have hne : ∀ b ∈ h.blocks, b ≠ mem := fun b hb he => hmem (he ▸ hb)
  set h0 := { h with segs := segs }.setSize mem (len - hdrSize)
  have hlen' : h0.len = update h.len mem len := by
    rw [len_setSize]
    have he : hdrSize + (len - hdrSize) = len := by omega
    rw [he]
    rfl
  have hsame : ∀ b ∈ h.freeList, h0.len b = h.len b := by
    intro b hb
    rw [hlen', update_of_ne (hne b (.inl hb))]
  refine Shape.merge ⟨?_, hi.shape.nodup, ?_, ?_, ?_⟩ ?_ ?_ ?_ hi.free
  · have hmanaged : h0.managed = h.managed ∪ {a | mem ≤ a ∧ a < mem + len} := managed_segAdd ha
    rw [hmanaged, hlen']
    exact hi.shape.part.insert (by unfold hdrSize at hlen; omega) hout
  · exact fun b hb => .inr (.inl hb)
  · intro b hb c hc
    rw [hsame b hb]
    exact hi.shape.untouched b hb c hc
  · have hmap := map_congr_left hsame
    exact hi.shape.freeSize.trans
      (congrArg (fun l : List Nat => BitVec.ofNat 32 l.sum) hmap.symm)
  · exact fun hf => hmem (.inl hf)
  · exact fun hh => hmem (.inr hh)
  · exact fun b hb => (hi.handed b hb).1

/-- Either nothing changes, or the segment is new and the heap is expanded. -/
theorem memoryExpand_cases (h : Heap) (mem len : Nat) : (h.memoryExpand maxSegs mem len).1 = h ∨
    0 < mem ∧ hdrSize + minBlock ≤ len ∧ ∃ segs, segAdd maxSegs h.segs mem len = some segs ∧
      (h.memoryExpand maxSegs mem len).1 =
        { ({ h with segs := segs }.setSize mem (len - hdrSize)).merge mem with
          totalSize := h.totalSize + BitVec.ofNat 32 len } := by
  unfold memoryExpand
  split
  · exact .inl rfl
  rename_i hok
  cases ha : segAdd maxSegs h.segs mem len with
  | none => exact .inl rfl
  | some segs => exact .inr ⟨by omega, by omega, segs, rfl, rfl⟩

theorem Inv.expand (hi : Inv h) (hspace : mem + len ≤ 2 ^ 32)
    (hap : ∀ s ∈ h.segs, mem + len ≤ s.1 ∨ s.1 + s.2 ≤ mem) :
    Inv (h.memoryExpand maxSegs mem len).1 := by
  rcases @memoryExpand_cases maxSegs h mem len with he | ⟨hpos, hlen, segs, ha, he⟩
  · rw [he]
    exact hi
  have hput := hi.extended hlen hap ha
  rw [he]
  refine hi.ofPut hput (fun b hb => (hi.handed b hb).2) (fun _ hp => hp) hi.handedNodup
    ((forall_segAdd ha).mpr ⟨⟨hpos, hspace⟩, hi.space⟩) (Heap.live _) ?_ ?_ (Heap.used _) _
  · rw [hput.same.live]
    exact hi.liveNodup
  · rw [hput.same.live]
    exact hi.live

/-! ## Every run -/

/-- No block starts where its header would reach into the payload of a held pointer. -/
theorem Inv.payload_start (hi : Inv h) {a : Nat}
    (ha : ∃ p ∈ h.live, p < a + hdrSize ∧ a < p + h.size (p - hdrSize)) : a ∉ h.blocks := by
  intro hb
  obtain ⟨p, hp, h1, h2⟩ := ha
  have hph := hi.live p hp
  have hback := hi.header hph
  have hpB : p - hdrSize ∈ h.blocks := .inr (hback ▸ hph)
  have hsize : h.len (p - hdrSize) = hdrSize + h.size (p - hdrSize) := rfl
  have hpos := hi.shape.part.pos a hb
  have he := hi.shape.part.apart a hb _ hpB a ⟨le_refl a, by omega⟩ ⟨by omega, by omega⟩
  omega

theorem Inv.write (hi : Inv h) {a : Nat} (size : Nat) (magic : UInt32)
    (ha : ∃ p ∈ h.live, p < a + hdrSize ∧ a < p + h.size (p - hdrSize)) : Inv { h with
      size := update h.size a size
      magic := update h.magic a magic } := by
  have hout := hi.payload_start ha
  have hmagic : ∀ b ∈ h.blocks, update h.magic a magic b = h.magic b := by
    intro b hb
    have hne : b ≠ a := fun he => hout (he ▸ hb)
    exact update_of_ne hne ..
  refine { hi with shape := ?_, free := ?_, handed := ?_ }
  · have hs := hi.shape.setSize hout size
    exact { hs with }
  · exact fun b hb => (hmagic b (.inl hb)).trans (hi.free b hb)
  · exact fun b hb => ⟨(hi.handed b hb).1, (hmagic b (.inr hb)).trans (hi.handed b hb).2⟩

theorem Inv.step (hi : Inv h) {l : Label} (hl : Lawful h l) (hn : next maxSegs h l = some h') :
    Inv h' := by
  cases l with
  | alloc size =>
    cases hn
    exact hi.alloc size.toNat
  | free ptr =>
    cases hn
    exact hi.free_ hl
  | expand mem len =>
    cases hn
    exact hi.expand hl.1 hl.2
  | write a size magic =>
    cases hn
    exact hi.write size magic hl

theorem memoryInit_some (hinit : memoryInit maxSegs size magic staticMem staticLen = some h) :
    ¬ (staticMem = 0 ∨ staticLen < hdrSize + minBlock) ∧ h = ((cleared size magic staticLen
      [(staticMem, staticLen)]).setSize staticMem (staticLen - hdrSize)).push staticMem := by
  obtain ⟨hok, hinit⟩ := ite_none_left_eq_some.mp hinit
  obtain ⟨segs, ha, rfl⟩ := map_eq_some_iff.mp hinit
  rw [perm_singleton.mp (segAdd_eq ha)]
  exact ⟨hok, rfl⟩

theorem Inv.init (hspace : staticMem + staticLen ≤ 2 ^ 32)
    (hinit : memoryInit maxSegs size magic staticMem staticLen = some h) : Inv h := by
  obtain ⟨hok, rfl⟩ := memoryInit_some hinit
  have hlen : hdrSize + (staticLen - hdrSize) = staticLen := by omega
  obtain ⟨h0, hh0⟩ : ∃ h0, (cleared size magic staticLen [(staticMem, staticLen)]).setSize staticMem
    (staticLen - hdrSize) = h0 := ⟨_, rfl⟩
  have hlen0 : h0.len staticMem = staticLen := by rw [← hh0, len_setSize_self, hlen]
  have hfree : h0.freeList = [] := hh0 ▸ rfl
  have hhanded : h0.handed = [] := hh0 ▸ rfl
  have hlive : h0.live = [] := hh0 ▸ rfl
  have hsegs0 : h0.segs = [(staticMem, staticLen)] := hh0 ▸ rfl
  have hpart : Partition {staticMem} h0.len h0.managed := by
    refine ⟨?_, ?_, ?_⟩
    · intro b hb
      rw [hb, hlen0]
      unfold hdrSize at hok
      omega
    · intro b hb c hc _ _ _
      rw [hb, hc]
    · intro a
      simp [managed, InBlock, hlen0, hsegs0]
  have hs0 : Shape h0 {staticMem} := by
    refine ⟨hpart, ?_, ?_, ?_, ?_⟩
    · simp [hfree]
    · simp [hfree]
    · simp [hfree]
    · rw [← hh0]
      rfl
  have hpush := hs0.push rfl (by simp [hfree]) (by simp [hfree])
  have hblocks : (h0.push staticMem).blocks = {staticMem} := by
    ext b
    simp [blocks, push, hfree, hhanded]
  rw [hh0]
  refine ⟨hblocks ▸ hpush, ?_, ?_, ?_, ?_, ?_, ?_, ?_⟩
  · intro b hb
    have hb' : b = staticMem := by simpa [push, hfree] using hb
    rw [hb']
    exact update_self ..
  · simp [push, hhanded]
  · simp [push, hhanded]
  · simp [push, hhanded]
  · simp [push, hlive]
  · simp [push, hlive]
  · simp [push, hsegs0]
    omega

theorem inv_reachable (hr : ((system maxSegs).restrict Lawful).Reachable h) : Inv h := by
  have hinv : ((system maxSegs).restrict Lawful).IsInvariant Inv := by
    refine ⟨fun h h0 => ?_, fun h l h' hi hn => hi.step hn.1 hn.2⟩
    obtain ⟨size, magic, staticMem, staticLen, hspace, hinit⟩ := h0
    exact Inv.init hspace hinit
  exact hinv.holds hr

/-- The blocks tile the segments; the free list, its counter and the magics agree with them. -/
structure Tidy (h : Heap) : Prop where
  tiles : Partition h.blocks h.len h.managed
  nodup : h.freeList.Nodup
  untouched : ∀ b ∈ h.freeList, ∀ c ∈ h.freeList, b + h.len b ≠ c
  freeSize : h.freeSize.toNat = (h.freeList.map h.len).sum
  magic : ∀ b ∈ h.blocks, h.magic b = magicFree ↔ b ∈ h.freeList

theorem Inv.managed_space (hi : Inv h) : ∀ a ∈ h.managed, 1 ≤ a ∧ a < 2 ^ 32 := by
  intro a ha
  obtain ⟨s, hs, h1, h2⟩ := ha
  have := hi.space s hs
  omega

theorem Inv.tidy (hi : Inv h) : Tidy h := by
  refine ⟨hi.shape.part, hi.shape.nodup, hi.shape.untouched, ?_, ?_⟩
  · have hsum := hi.shape.part.sum_le hi.shape.nodup hi.shape.sub hi.managed_space
    rw [hi.shape.freeSize, BitVec.toNat_ofNat, Nat.mod_eq_of_lt (by omega)]
  · intro b hb
    constructor
    · intro hm
      rcases hb with hb | hb
      · exact hb
      · rw [(hi.handed b hb).2] at hm
        exact absurd hm (by decide)
    · exact hi.free b

theorem heap_tiled (maxSegs : Nat) {h : Heap}
    (hr : ((system maxSegs).restrict Lawful).Reachable h) : Tidy h :=
  (inv_reachable hr).tidy

def pool : Heap :=
  ((cleared (fun _ => 0) (fun _ => 0) 200 [(4096, 200)]).setSize 4096 184).push 4096

theorem pool_init : ∃ size magic staticMem staticLen, staticMem + staticLen ≤ 2 ^ 32 ∧
    memoryInit 4 size magic staticMem staticLen = some pool :=
  ⟨fun _ => 0, fun _ => 0, 4096, 200, by decide, rfl⟩

theorem heap_tiled_two : ∃ h, ((system 4).restrict Lawful).Reachable h ∧
    h.freeList = [4160, 4096, 4224] ∧ Tidy h := by
  obtain ⟨h, hr, hp⟩ := LTS.Reachable.of_execOk (system 4).init (next 4) Lawful pool
    [.alloc 10, .alloc 16, .alloc 9, .alloc 16, .write 4144 3 magicFree, .free 4112, .free 4176]
    (fun h => h.freeList = [4160, 4096, 4224]) pool_init (by decide +kernel)
  exact ⟨h, hr, hp, heap_tiled 4 hr⟩

/-- A freed block goes to the head of the list, wherever it lies. -/
theorem free_list_unordered : ¬ ∀ (maxSegs : Nat) (h : Heap),
    ((system maxSegs).restrict Lawful).Reachable h → Tidy h ∧ h.freeList.Pairwise (· < ·) := by
  intro hall
  obtain ⟨h, hr, hp⟩ := LTS.Reachable.of_execOk (system 4).init (next 4) Lawful pool
    [.alloc 10, .alloc 16, .alloc 9, .alloc 16, .free 4112, .free 4176]
    (fun h => ¬ h.freeList.Pairwise (· < ·)) pool_init (by decide +kernel)
  exact hp (hall 4 h hr).2

end MiniTree.Os.Heap
