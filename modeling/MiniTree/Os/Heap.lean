import MiniTree.Core.Blocks
import MiniTree.Core.LTS

/-!
# The free-list heap (`memory.c`)

First-fit allocation, split of what is left over, and coalescing on free, over segments that are
registered at the initialisation and by `mini_os_memory_expand`. Builds without slab zone, on a
32-bit target: a header of 16 bytes, `size_t` of 32 bits.
Sources: `lib/mini-os/src`, `lib/mini-os/inc`.

A header is what memory holds at an address: `size` and `magic` are defined at every address, and
a client that writes into its block may change them at any address that is not a block's. The
free list is the list of the addresses in its order.

**Results.** `Shape.merge` and `Shape.take`: what coalescing and a first-fit allocation do to the
partition of the segments into blocks.
-/

namespace MiniTree.Os

open MiniTree.Core Function List
open BitVec (ofNat ofNat_add add_comm)

structure Heap where
  size : Nat → Nat
  magic : Nat → UInt32
  freeList : List Nat
  freeSize : BitVec 32
  totalSize : BitVec 32
  /-- base and length -/
  segs : List (Nat × Nat)
  used : Nat
  peak : Nat
  /-- history: the pointers that the clients hold -/
  live : List Nat
  /-- history: the pointers whose block was not put back on the free list -/
  handed : List Nat

namespace Heap

def hdrSize : Nat := 16
def minBlock : Nat := 16
def magicAlloc : UInt32 := 0xA5A5A5A5
def magicFree : UInt32 := 0x5A5A5A5A

/-- mirrors redef.h:539 (`MINI_OS_MEMORY_ALIGN_UP`) -/
def alignUp (size : Nat) : Nat := (size + 7) % 2 ^ 32 / 8 * 8

def len (h : Heap) (blk : Nat) : Nat := hdrSize + h.size blk

/-- mirrors memory.c:38-43 (`mini_os_memory_freelist_push`) -/
def push (h : Heap) (blk : Nat) : Heap :=
  { h with
    magic := update h.magic blk magicFree
    freeSize := h.freeSize + ofNat 32 (h.len blk)
    freeList := blk :: h.freeList }

def unlink (h : Heap) (it : Nat) : Heap :=
  { h with
    freeSize := h.freeSize - ofNat 32 (h.len it)
    freeList := h.freeList.erase it }

def setSize (h : Heap) (blk n : Nat) : Heap := { h with size := update h.size blk n }

/-- The walk over the list; the block that took over its neighbours.
mirrors memory.c:55-84 (`mini_os_memory_freelist_merge`) -/
def mergeLoop : List Nat → Heap → Nat → Heap × Nat
  | [], h, blk => (h, blk)
  | it :: rest, h, blk =>
    if it + h.len it = blk then
      mergeLoop rest ((h.unlink it).setSize it (h.size it + h.len blk)) it
    else if blk + h.len blk = it then
      mergeLoop rest ((h.unlink it).setSize blk (h.size blk + h.len it)) blk
    else mergeLoop rest h blk

section
variable (maxSegs : Nat) (h : Heap) (ptr : Nat)

def merge (blk : Nat) : Heap := (mergeLoop h.freeList h blk).1.push (mergeLoop h.freeList h blk).2

/-- The chosen block leaves the list, and what it has too much goes back.
mirrors memory.c:106-121 -/
def take (it size : Nat) : Heap :=
  if hdrSize + minBlock ≤ h.size it - size then
    (((h.unlink it).setSize (it + hdrSize + size) (h.size it - size - hdrSize)).push
      (it + hdrSize + size)).setSize it size
  else h.unlink it

/-- mirrors memory.c:95-124 (`mini_os_memory_freelist_alloc`) -/
def freelistAlloc (size : Nat) : Option Nat × Heap :=
  match h.freeList.find? fun it => decide (alignUp size ≤ h.size it) with
  | none => (none, h)
  | some it =>
    let h := h.take it (alignUp size)
    (some it, { h with magic := update h.magic it magicAlloc })

/-- mirrors memory.c:136-147 (`mini_os_memory_freelist_free`) -/
def freelistFree : Heap :=
  let blk := ptr - hdrSize
  if h.magic blk ≠ magicAlloc then h
  else if h.size blk % 8 ≠ 0 then h
  else { h with
    magic := update h.magic blk magicFree
    handed := h.handed.erase ptr }.merge blk

/-- Kept in the order of the lengths.
mirrors memory.c:160-176 (`mini_os_memory_seg_add`) -/
def segAdd (segs : List (Nat × Nat)) (base len : Nat) : Option (List (Nat × Nat)) :=
  if maxSegs ≤ segs.length then none
  else some (segs.takeWhile (fun s => decide (s.2 ≤ len)) ++
    (base, len) :: segs.dropWhile fun s => decide (s.2 ≤ len))

/-- mirrors memory.c:185-198 (`mini_os_memory_ptr_in_segments`) -/
def ptrInSegments : Bool :=
  h.segs.any fun s => decide (s.1 + hdrSize ≤ ptr ∧ ptr ≤ s.1 + s.2)

/-- A pool with cleared counters, over memory that holds anything. -/
def cleared (size : Nat → Nat) (magic : Nat → UInt32) (staticLen : Nat) (segs : List (Nat × Nat)) :
    Heap where
  size := size
  magic := magic
  freeList := []
  freeSize := 0
  totalSize := ofNat 32 staticLen
  segs := segs
  used := 0
  peak := 0
  live := []
  handed := []

/-- `none` for an error.
mirrors memory.c:393-457 (`mini_os_memory_init`) -/
def memoryInit (size : Nat → Nat) (magic : Nat → UInt32) (staticMem staticLen : Nat) :
    Option Heap :=
  if staticMem = 0 ∨ staticLen < hdrSize + minBlock then none
  else (segAdd maxSegs [] staticMem staticLen).map fun segs =>
    ((cleared size magic staticLen segs).setSize staticMem (staticLen - hdrSize)).push staticMem

/-- mirrors memory.c:499-506 (`mini_os_memory_count_alloc`) -/
def countAlloc : Heap :=
  { h with used := h.used + 1, peak := max h.peak (h.used + 1) }

/-- mirrors memory.c:521-545 (`mini_os_memory_alloc`) -/
def memoryAlloc (size : Nat) : Option Nat × Heap :=
  if size = 0 then (none, h)
  else match h.freelistAlloc size with
    | (none, h) => (none, h)
    | (some blk, h) =>
      (some (blk + hdrSize), { h.countAlloc with
        live := (blk + hdrSize) :: h.live
        handed := (blk + hdrSize) :: h.handed })

/-- `true` for `MINI_OS_OK`, `false` for `MINI_OS_ERR_INVAL`.
mirrors memory.c:562-592 (`mini_os_memory_free`) -/
def memoryFree : Heap × Bool :=
  if ptr = 0 then (h, false)
  else if h.ptrInSegments ptr then
    ({ h.freelistFree ptr with used := h.used - 1, live := h.live.erase ptr }, true)
  else (h, false)

/-- mirrors memory.c:605-625 (`mini_os_memory_expand`) -/
def memoryExpand (mem len : Nat) : Heap × Bool :=
  if mem = 0 ∨ len < hdrSize + minBlock then (h, false)
  else match segAdd maxSegs h.segs mem len with
    | none => (h, false)
    | some segs =>
      ({ ({ h with segs := segs }.setSize mem (len - hdrSize)).merge mem with
         totalSize := h.totalSize + ofNat 32 len }, true)

end

inductive Label where
  | alloc (size : BitVec 32)
  | free (ptr : Nat)
  | expand (mem len : Nat)
  /-- a client writes into its block, and this is what a header at `a` now reads -/
  | write (a size : Nat) (magic : UInt32)

def next (maxSegs : Nat) (h : Heap) : Label → Option Heap
  | .alloc size => some (h.memoryAlloc size.toNat).2
  | .free ptr => some (h.memoryFree ptr).1
  | .expand mem len => some (h.memoryExpand maxSegs mem len).1
  | .write a size magic => some { h with
      size := update h.size a size
      magic := update h.magic a magic }

/-- Runs from an accepted configuration; the pool lies in the address space. -/
def system (maxSegs : Nat) : LTS Heap Label :=
  LTS.ofFn (fun h => ∃ size magic staticMem staticLen, staticMem + staticLen ≤ 2 ^ 32 ∧
    memoryInit maxSegs size magic staticMem staticLen = some h) (next maxSegs)

/-- What the callers owe: a free of a pointer they hold, a segment in the address space that
overlaps no other one, and writes that touch a payload they hold. -/
def Lawful (h : Heap) : Label → Prop
  | .alloc _ => True
  | .free ptr => ptr ∈ h.live
  | .expand mem len => mem + len ≤ 2 ^ 32 ∧ ∀ s ∈ h.segs, mem + len ≤ s.1 ∨ s.1 + s.2 ≤ mem
  | .write a _ _ => ∃ p ∈ h.live, p < a + hdrSize ∧ a < p + h.size (p - hdrSize)

instance (h : Heap) (l : Label) : Decidable (Lawful h l) := by
  unfold Lawful
  split <;> infer_instance

def managed (h : Heap) : Set ℕ := {a | ∃ s ∈ h.segs, s.1 ≤ a ∧ a < s.1 + s.2}

/-- The blocks: on the free list, or handed out. -/
def blocks (h : Heap) : Set ℕ := {b | b ∈ h.freeList ∨ b + hdrSize ∈ h.handed}

/-! ## The shape of the heap -/

/-- `B` partitions the segments, and the free list holds some of its blocks: each once, no two
that touch, counted in `freeSize`. -/
structure Shape (h : Heap) (B : Set ℕ) : Prop where
  part : Partition B h.len h.managed
  nodup : h.freeList.Nodup
  sub : ∀ b ∈ h.freeList, b ∈ B
  untouched : ∀ b ∈ h.freeList, ∀ c ∈ h.freeList, b + h.len b ≠ c
  freeSize : h.freeSize = ofNat 32 (h.freeList.map h.len).sum

variable {h h' : Heap} {B : Set ℕ} {blk : Nat}

theorem len_setSize_self (h : Heap) (b n : Nat) : (h.setSize b n).len b = hdrSize + n := by
  simp [len, setSize]

theorem len_setSize_ne (h : Heap) {b c : Nat} (n : Nat) (hne : c ≠ b) :
    (h.setSize b n).len c = h.len c := by simp [len, setSize, hne]

theorem len_setSize (h : Heap) (b n : Nat) :
    (h.setSize b n).len = update h.len b (hdrSize + n) := by
  funext c
  by_cases hc : c = b
  · subst hc
    simp [len_setSize_self]
  · simp [len_setSize_ne h n hc, hc]

theorem len_unlink (h : Heap) (it : Nat) : (h.unlink it).len = h.len := rfl

variable {it : Nat} {B' : Set ℕ}

section
variable (hs : Shape h B)
include hs

/-- Another partition with the same free blocks. -/
theorem Shape.congr (hp : Partition B' h'.len h'.managed)
    (hl : h'.freeList = h.freeList) (hf : h'.freeSize = h.freeSize) (hsub : ∀ b ∈ h.freeList, b ∈ B')
    (hlen : ∀ b ∈ h.freeList, h'.len b = h.len b) : Shape h' B' := by
  refine ⟨hp, hl ▸ hs.nodup, hl ▸ hsub, ?_, ?_⟩
  · rw [hl]
    intro b hb c hc
    rw [hlen b hb]
    exact hs.untouched b hb c hc
  · rw [hf, hl, map_congr_left hlen]
    exact hs.freeSize

/-- A header at an address where no block starts. -/
theorem Shape.setSize {a : Nat} (ha : a ∉ B) (n : Nat) : Shape (h.setSize a n) B := by
  have hlen : ∀ b ∈ B, (h.setSize a n).len b = h.len b := by
    intro b hb
    apply len_setSize_ne
    intro he
    exact ha (he ▸ hb)
  exact hs.congr (hs.part.congr hlen) rfl rfl hs.sub fun b hb => hlen b (hs.sub b hb)

theorem Shape.unlink (hit : it ∈ h.freeList) : Shape (h.unlink it) B := by
  refine ⟨hs.part, hs.nodup.erase it, ?_, ?_, ?_⟩
  · intro b hb
    exact hs.sub b (mem_of_mem_erase hb)
  · intro b hb c hc
    exact hs.untouched b (mem_of_mem_erase hb) c (mem_of_mem_erase hc)
  · have hsum := sum_map_erase h.len hit
    change h.freeSize - ofNat 32 (h.len it) = ofNat 32 ((h.freeList.erase it).map h.len).sum
    rw [hs.freeSize, ← hsum, ofNat_add, add_comm, BitVec.add_sub_cancel]

/-- A block that touches no free block goes on the list. -/
theorem Shape.push (hblk : blk ∈ B) (hfree : blk ∉ h.freeList)
    (hun : ∀ v ∈ h.freeList, v + h.len v ≠ blk ∧ blk + h.len blk ≠ v) : Shape (h.push blk) B := by
  have hpos := hs.part.pos blk hblk
  refine ⟨hs.part, nodup_cons.mpr ⟨hfree, hs.nodup⟩, ?_, ?_, ?_⟩
  · intro b hb
    rcases mem_cons.mp hb with rfl | hb
    · exact hblk
    · exact hs.sub b hb
  · intro b hb c hc
    change b + h.len b ≠ c
    rcases mem_cons.mp hb with hb' | hb' <;> rcases mem_cons.mp hc with hc' | hc'
    · rw [hb', hc']
      omega
    · subst hb'
      exact (hun c hc').2
    · subst hc'
      exact (hun b hb').1
    · exact hs.untouched b hb' c hc'
  · change h.freeSize + ofNat 32 (h.len blk) = ofNat 32 (h.len blk + (h.freeList.map h.len).sum)
    rw [hs.freeSize, ofNat_add, add_comm]

/-- Two blocks that are not on the list become one. -/
theorem Shape.join {b c : Nat} (hb : b ∈ B) (hc : c ∈ B) (hbc : b + h.len b = c)
    (hbf : b ∉ h.freeList) (hcf : c ∉ h.freeList) :
    Shape (h.setSize b (h.size b + h.len c)) (B \ {c}) := by
  have hlen : ∀ d ∈ h.freeList, (h.setSize b (h.size b + h.len c)).len d = h.len d := by
    intro d hd
    apply len_setSize_ne
    intro he
    exact hbf (he ▸ hd)
  refine hs.congr ?_ rfl rfl ?_ hlen
  · have hj := hs.part.join hb hc hbc
    rw [len_setSize]
    have he : hdrSize + (h.size b + h.len c) = h.len b + h.len c := by
      unfold len
      omega
    rw [he]
    exact hj
  · intro d hd
    refine ⟨hs.sub d hd, ?_⟩
    intro he
    exact hcf (he ▸ hd)

end

/-! ## Coalescing -/

/-- What a walk makes of the list and the block that it started with. -/
structure Merged (h : Heap) (B : Set ℕ) (blk : Nat) (h' : Heap) (B' : Set ℕ) (blk' : Nat) : Prop where
  shape : Shape h' B'
  mem : blk' ∈ B'
  notFree : blk' ∉ h'.freeList
  untouched : ∀ v ∈ h'.freeList, v + h'.len v ≠ blk' ∧ blk' + h'.len blk' ≠ v
  keep : ∀ b ∈ B, b ∉ h.freeList → b ≠ blk → b ∈ B' ∧ b ≠ blk' ∧ h'.size b = h.size b
  back : ∀ b ∈ B', b ≠ blk' → b ∈ B ∧ b ≠ blk ∧ (b ∈ h.freeList → b ∈ h'.freeList)
  sub : ∀ b ∈ h'.freeList, b ∈ h.freeList
  even : (∀ b ∈ B, h.size b % 8 = 0) → ∀ b ∈ B', h'.size b % 8 = 0
  total : h'.freeSize + ofNat 32 (h'.len blk') = h.freeSize + ofNat 32 (h.len blk)
  frame : h' = { h with size := h'.size, freeList := h'.freeList, freeSize := h'.freeSize }

/-- One block `it` of the list and `blk` become the block `lo`, which was the lower of the two. -/
theorem Shape.absorb (hs : Shape h B) {blk lo hi : Nat} (hblk : blk ∈ B)
    (hfree : blk ∉ h.freeList) (hit : it ∈ h.freeList) (hlh : lo = it ∧ hi = blk ∨ lo = blk ∧ hi = it)
    (htouch : lo + h.len lo = hi) :
    Shape ((h.unlink it).setSize lo (h.size lo + h.len hi)) (B \ {hi}) ∧ lo ∈ B \ {hi} ∧
      lo ∉ h.freeList.erase it := by
  have hitB := hs.sub it hit
  have hgone : it ∉ h.freeList.erase it := hs.nodup.not_mem_erase
  have hgone' : blk ∉ h.freeList.erase it := fun hm => hfree (mem_of_mem_erase hm)
  have hne : lo ∈ B → lo ≠ hi := fun hlo => by
    have := hs.part.pos lo hlo
    omega
  rcases hlh with ⟨rfl, rfl⟩ | ⟨rfl, rfl⟩
  · exact ⟨(hs.unlink hit).join hitB hblk htouch hgone hgone', ⟨hitB, hne hitB⟩, hgone⟩
  · exact ⟨(hs.unlink hit).join hblk hitB htouch hgone' hgone, ⟨hblk, hne hblk⟩, hgone'⟩

/-- A walk that goes on behind an absorption. -/
theorem Merged.absorb {h₁ : Heap} {blk lo hi blk' : Nat} (hit : it ∈ h.freeList)
    (hloB : lo ∈ B) (hhiB : hi ∈ B) (hlh : lo = it ∧ hi = blk ∨ lo = blk ∧ hi = it)
    (h₁eq : h₁ = (h.unlink it).setSize lo (h.size lo + h.len hi))
    (hm : Merged h₁ (B \ {hi}) lo h' B' blk') : Merged h B blk h' B' blk' := by
  subst h₁eq
  refine { hm with keep := ?_, back := ?_, sub := ?_, even := ?_, total := ?_ }
  · intro b hb hbf hbne
    have hbit : b ≠ it := fun he => hbf (he ▸ hit)
    have hlo : b ≠ lo := by omega
    have hhi : b ≠ hi := by omega
    obtain ⟨hB', hne, hsize⟩ := hm.keep b ⟨hb, hhi⟩ (fun hmem => hbf (mem_of_mem_erase hmem)) hlo
    exact ⟨hB', hne, hsize.trans (update_of_ne hlo ..)⟩
  · intro b hb hbne
    obtain ⟨⟨hbB, hhi⟩, hlo, hfree⟩ := hm.back b hb hbne
    have hhi' : b ≠ hi := hhi
    refine ⟨hbB, by omega, ?_⟩
    intro hbf
    exact hfree ((mem_erase_of_ne (by omega)).mpr hbf)
  · intro b hb
    exact mem_of_mem_erase (hm.sub b hb)
  · intro heven
    refine hm.even ?_
    intro b hb
    by_cases hlo : b = lo
    · have h1 := heven lo hloB
      have h2 := heven hi hhiB
      rw [hlo]
      simp only [Heap.setSize, Heap.unlink, update_self, len, hdrSize]
      omega
    · exact (congrArg (· % 8) (update_of_ne hlo ..)).trans (heven b hb.1)
  · have hlen : hdrSize + (h.size lo + h.len hi) = h.len it + h.len blk := by
      rcases hlh with ⟨rfl, rfl⟩ | ⟨rfl, rfl⟩ <;> unfold len <;> omega
    rw [hm.total, len_setSize_self, hlen, ofNat_add, ← BitVec.add_assoc]
    exact congrArg (· + _) (BitVec.sub_add_cancel ..)

/-- The walk. What was passed and is still on the list does not touch the block. -/
theorem Shape.mergeLoop (hs : Shape h B) (hblk : blk ∈ B) (hfree : blk ∉ h.freeList)
    {rest : List Nat} (hrest : ∀ it ∈ rest, it ∈ h.freeList) (hnodup : rest.Nodup)
    (hun : ∀ v ∈ h.freeList, v ∉ rest → v + h.len v ≠ blk ∧ blk + h.len blk ≠ v) :
    ∃ B', Merged h B blk (mergeLoop rest h blk).1 B' (mergeLoop rest h blk).2 := by
  induction rest generalizing h B blk with
  | nil =>
    refine ⟨B, hs, hblk, hfree, fun v hv => hun v hv not_mem_nil, ?_, ?_, fun _ hb => hb,
      fun he => he, rfl, rfl⟩
    · exact fun b hb _ hne => ⟨hb, hne, rfl⟩
    · exact fun b hb hne => ⟨hb, hne, fun hbf => hbf⟩
  | cons it rest ih =>
    have hit := hrest it mem_cons_self
    obtain ⟨hit', hnodup⟩ := nodup_cons.mp hnodup
    have hrest' : ∀ b ∈ rest, b ∈ h.freeList.erase it := by
      intro b hb
      have hne : b ≠ it := fun he => hit' (he ▸ hb)
      exact (mem_erase_of_ne hne).mpr (hrest b (mem_cons_of_mem _ hb))
    -- what was passed before, once `it` is off the list
    have hpassed : ∀ v ∈ h.freeList.erase it, v ∉ rest →
        v ∈ h.freeList ∧ v ≠ it ∧ v + h.len v ≠ blk ∧ blk + h.len blk ≠ v := by
      intro v hv hvr
      have hvit := hs.nodup.mem_erase_iff.mp hv
      exact ⟨hvit.2, hvit.1, hun v hvit.2 (not_mem_cons_of_ne_of_not_mem hvit.1 hvr)⟩
    unfold Heap.mergeLoop
    split
    · rename_i htouch
      have hlh : it = it ∧ blk = blk ∨ it = blk ∧ blk = it := .inl ⟨rfl, rfl⟩
      obtain ⟨hs', hmem', hfree'⟩ := hs.absorb hblk hfree hit hlh htouch
      obtain ⟨B', hm⟩ := ih hs' hmem' hfree' hrest' hnodup (by
        intro v hv hvr
        obtain ⟨hvf, hvit, -, h2⟩ := hpassed v hv hvr
        have h1 := hs.untouched v hvf it hit
        rw [len_setSize_ne _ _ hvit, len_setSize_self, len_unlink]
        unfold len at htouch h1 h2 ⊢
        omega)
      exact ⟨B', hm.absorb hit (hs.sub it hit) hblk hlh rfl⟩
    split
    · rename_i htouch
      have hlh : blk = it ∧ it = blk ∨ blk = blk ∧ it = it := .inr ⟨rfl, rfl⟩
      obtain ⟨hs', hmem', hfree'⟩ := hs.absorb hblk hfree hit hlh htouch
      obtain ⟨B', hm⟩ := ih hs' hmem' hfree' hrest' hnodup (by
        intro v hv hvr
        obtain ⟨hvf, -, h1, -⟩ := hpassed v hv hvr
        have hvb : v ≠ blk := fun he => hfree (he ▸ hvf)
        have h2 := hs.untouched it hit v hvf
        rw [len_setSize_ne _ _ hvb, len_setSize_self, len_unlink]
        unfold len at htouch h1 h2 ⊢
        omega)
      exact ⟨B', hm.absorb hit hblk (hs.sub it hit) hlh rfl⟩
    · rename_i h1 h2
      refine ih hs hblk hfree (fun b hb => hrest b (mem_cons_of_mem _ hb)) hnodup ?_
      intro v hv hvr
      by_cases hvit : v = it
      · subst hvit
        exact ⟨h1, h2⟩
      exact hun v hv (not_mem_cons_of_ne_of_not_mem hvit hvr)

/-- The fields that the list operations leave alone. -/
structure SameRest (h h' : Heap) : Prop where
  totalSize : h'.totalSize = h.totalSize
  segs : h'.segs = h.segs
  used : h'.used = h.used
  peak : h'.peak = h.peak
  live : h'.live = h.live
  handed : h'.handed = h.handed

/-- What coalescing does to the heap: `blk` was neither free nor handed out, and its bytes are
free behind it. -/
structure Put (h : Heap) (blk : Nat) (h' : Heap) : Prop where
  shape : Shape h' h'.blocks
  kept : ∀ b, b + hdrSize ∈ h.handed →
    h'.size b = h.size b ∧ h'.magic b = h.magic b ∧ b ∉ h'.freeList
  free : ∀ b ∈ h'.freeList, h'.magic b = magicFree
  even : (∀ b ∈ insert blk h.blocks, h.size b % 8 = 0) → ∀ b ∈ h'.blocks, h'.size b % 8 = 0
  total : h'.freeSize = h.freeSize + ofNat 32 (h.len blk)
  same : SameRest h h'

theorem Shape.merge (hs : Shape h (insert blk h.blocks)) (hfree : blk ∉ h.freeList)
    (hout : blk + hdrSize ∉ h.handed) (hhanded : ∀ b, b + hdrSize ∈ h.handed → b ∉ h.freeList)
    (hmagic : ∀ b ∈ h.freeList, h.magic b = magicFree) : Put h blk (h.merge blk) := by
  obtain ⟨B', hm⟩ := hs.mergeLoop (.inl rfl) hfree (fun _ hb => hb) hs.nodup
    (fun v hv hv' => absurd hv hv')
  have hframe := hm.frame
  generalize hh1 : (Heap.mergeLoop h.freeList h blk).1 = h1 at hm hframe
  generalize hblk1 : (Heap.mergeLoop h.freeList h blk).2 = blk1 at hm
  have hmerge : h.merge blk = h1.push blk1 := by
    unfold Heap.merge
    rw [hh1, hblk1]
  have hsame : SameRest h h1 := by
    rw [hframe]
    exact ⟨rfl, rfl, rfl, rfl, rfl, rfl⟩
  have hmag : h1.magic = h.magic := by rw [hframe]
  have hkeep : ∀ b, b + hdrSize ∈ h.handed → b ∈ B' ∧ b ≠ blk1 ∧ h1.size b = h.size b := by
    intro b hb
    refine hm.keep b (.inr (.inr hb)) (hhanded b hb) ?_
    intro he
    exact hout (he ▸ hb)
  have hblocks : B' = (h1.push blk1).blocks := by
    ext b
    constructor
    · intro hb
      by_cases hne : b = blk1
      · exact .inl (hne ▸ mem_cons_self)
      obtain ⟨hbB, hbne, hbf⟩ := hm.back b hb hne
      rcases hbB with he | hbf' | hbh
      · exact absurd he hbne
      · exact .inl (mem_cons_of_mem _ (hbf hbf'))
      · exact .inr (hsame.handed ▸ hbh)
    · intro hb
      rcases hb with hb | hb
      · rcases mem_cons.mp hb with rfl | hb
        · exact hm.mem
        · exact hm.shape.sub b hb
      · exact (hkeep b (hsame.handed ▸ hb)).1
  rw [hmerge]
  refine ⟨?_, ?_, ?_, ?_, hm.total, ?_⟩
  · rw [← hblocks]
    exact hm.shape.push hm.mem hm.notFree hm.untouched
  · intro b hb
    obtain ⟨-, hne, hsize⟩ := hkeep b hb
    exact ⟨hsize, (update_of_ne hne ..).trans (congrFun hmag b),
      not_mem_cons_of_ne_of_not_mem hne fun hmem => hhanded b hb (hm.sub b hmem)⟩
  · intro b hb
    by_cases hne : b = blk1
    · subst hne
      exact update_self ..
    · have hmem := (mem_cons.mp hb).resolve_left hne
      exact (update_of_ne hne ..).trans ((congrFun hmag b).trans (hmagic b (hm.sub b hmem)))
  · intro heven b hb
    exact hm.even heven b (hblocks ▸ hb)
  · exact { hsame with }

/-! ## First fit -/

/-- What an allocation of `it` does to the heap. -/
structure Taken (h : Heap) (it size : Nat) (h' : Heap) : Prop where
  shape : Shape h' (insert it h'.blocks)
  notFree : it ∉ h'.freeList
  room : size ≤ h'.size it
  kept : ∀ b, b ∈ h.blocks → b ∉ h.freeList → h'.size b = h.size b ∧ h'.magic b = h.magic b ∧
    b ∉ h'.freeList
  free : ∀ b ∈ h'.freeList, h'.magic b = magicFree
  even : (∀ b ∈ h.blocks, h.size b % 8 = 0) → size % 8 = 0 →
    ∀ b ∈ insert it h'.blocks, h'.size b % 8 = 0
  same : SameRest h h'

/-- The rest of a block that is split touches no free block. -/
theorem Shape.split (hs : Shape h B) {n m : Nat} (hit : it ∈ h.freeList) (hn : 0 < n)
    (hlen : n + m = h.len it) (hm : hdrSize ≤ m) (hnh : hdrSize ≤ n) :
    Shape ((((h.unlink it).setSize (it + n) (m - hdrSize)).push (it + n)).setSize it (n - hdrSize))
        (insert (it + n) B) ∧ it + n ∉ B := by
  have hhdr : 0 < hdrSize := by decide
  have hitB := hs.sub it hit
  have hnew : it + n ∉ B := by
    intro hmem
    have hpos := hs.part.pos _ hmem
    have := hs.part.apart _ hmem it hitB (it + n) ⟨by omega, by omega⟩ ⟨by omega, by omega⟩
    omega
  set h0 := ((h.unlink it).setSize (it + n) (m - hdrSize)).setSize it (n - hdrSize) with hh0
  -- the two sizes are set before the push, which does not read the other one
  have hcomm : (((h.unlink it).setSize (it + n) (m - hdrSize)).push (it + n)).setSize it (n - hdrSize) =
      h0.push (it + n) := by
    unfold Heap.push
    rw [len_setSize_ne _ _ (show it + n ≠ it by omega)]
    rfl
  have hlen' : h0.len = update (update h.len (it + n) (h.len it - n)) it n := by
    rw [len_setSize, len_setSize, len_unlink]
    have h1 : hdrSize + (m - hdrSize) = h.len it - n := by omega
    have h2 : hdrSize + (n - hdrSize) = n := by omega
    rw [h1, h2]
  have hsame : ∀ v ∈ h.freeList.erase it, h0.len v = h.len v ∧ v ≠ it ∧ v ∈ h.freeList := by
    intro v hv
    obtain ⟨hvit, hvf⟩ := hs.nodup.mem_erase_iff.mp hv
    have hvn : v ≠ it + n := fun he => hnew (he ▸ hs.sub v hvf)
    refine ⟨?_, hvit, hvf⟩
    rw [hlen', update_of_ne hvit, update_of_ne hvn]
  have hbase : Shape h0 (insert (it + n) B) := by
    refine (hs.unlink hit).congr ?_ rfl rfl ?_ fun b hb => (hsame b hb).1
    · rw [hlen']
      exact hs.part.split hitB hn (by omega)
    · intro b hb
      exact .inr ((hs.unlink hit).sub b hb)
  refine ⟨?_, hnew⟩
  rw [hcomm]
  refine hbase.push (.inl rfl) ?_ ?_
  · intro hmem
    exact hnew (hs.sub _ (hsame _ hmem).2.2)
  · intro v hv
    obtain ⟨hvlen, hvit, hvf⟩ := hsame v hv
    have hvpos := hs.part.pos v (hs.sub v hvf)
    rw [hvlen, hlen', update_of_ne (show it + n ≠ it by omega), update_self]
    constructor
    · intro he
      -- the last byte of `v` would lie in `it`
      refine hvit (hs.part.apart v (hs.sub v hvf) it hitB (v + h.len v - 1) ⟨by omega, by omega⟩ ?_)
      exact ⟨by omega, by omega⟩
    · intro he
      exact hs.untouched it hit v hvf (by omega)

theorem blocks_push (h : Heap) (b : Nat) : (h.push b).blocks = insert b h.blocks := by
  ext a
  simp [blocks, Heap.push, or_assoc]

theorem insert_blocks_unlink (hit : it ∈ h.freeList) :
    insert it (h.unlink it).blocks = h.blocks := by
  ext b
  by_cases hb : b = it
  · simp [hb, blocks, hit]
  · simp [hb, blocks, Heap.unlink, mem_erase_of_ne hb]

theorem Shape.take (hs : Shape h h.blocks) {size : Nat} (hit : it ∈ h.freeList)
    (hsize : size ≤ h.size it) (hmagic : ∀ b ∈ h.freeList, h.magic b = magicFree) :
    Taken h it size (h.take it size) := by
  have hmem : ∀ b, b ∈ h.freeList.erase it ↔ b ≠ it ∧ b ∈ h.freeList := fun b =>
    hs.nodup.mem_erase_iff
  unfold Heap.take
  split
  · rename_i hrem
    obtain ⟨hsplit, hnew⟩ := @Shape.split h h.blocks it hs (hdrSize + size) (h.size it - size) hit
      (by unfold hdrSize; omega) (by unfold len; omega) (by omega) (by omega)
    rw [Nat.add_sub_cancel_left, ← add_assoc] at hsplit
    rw [← add_assoc] at hnew
    have hne : it ≠ it + hdrSize + size := by
      unfold hdrSize
      omega
    have hblocks : insert it ((((h.unlink it).setSize (it + hdrSize + size)
        (h.size it - size - hdrSize)).push (it + hdrSize + size)).setSize it size).blocks =
          insert (it + hdrSize + size) h.blocks := by
      change insert it ((h.unlink it).push (it + hdrSize + size)).blocks = _
      rw [blocks_push, Set.insert_comm, insert_blocks_unlink hit]
    refine ⟨hblocks ▸ hsplit, ?_, ?_, ?_, ?_, ?_, ⟨rfl, rfl, rfl, rfl, rfl, rfl⟩⟩
    · exact not_mem_cons_of_ne_of_not_mem hne fun hm => ((hmem it).mp hm).1 rfl
    · simp [Heap.setSize]
    · intro b hb hbf
      have hbit : b ≠ it := fun he => hbf (he ▸ hit)
      have hbs : b ≠ it + hdrSize + size := fun he => hnew (he ▸ hb)
      exact ⟨(update_of_ne hbit ..).trans (update_of_ne hbs ..), update_of_ne hbs ..,
        not_mem_cons_of_ne_of_not_mem hbs fun hm => hbf ((hmem b).mp hm).2⟩
    · intro b hb
      by_cases hbs : b = it + hdrSize + size
      · subst hbs
        exact update_self ..
      · have hbf := ((hmem b).mp ((mem_cons.mp hb).resolve_left hbs)).2
        exact (update_of_ne hbs ..).trans (hmagic b hbf)
    · intro heven hsz b hb
      rw [hblocks] at hb
      by_cases hbit : b = it
      · rw [hbit]
        exact (congrArg (· % 8) (update_self ..)).trans hsz
      refine (congrArg (· % 8) (update_of_ne hbit ..)).trans ?_
      by_cases hbs : b = it + hdrSize + size
      · have hsize' := heven it (.inl hit)
        rw [hbs]
        refine (congrArg (· % 8) (update_self ..)).trans ?_
        unfold hdrSize at hrem ⊢
        omega
      · exact (congrArg (· % 8) (update_of_ne hbs ..)).trans
          (heven b (hb.resolve_left hbs))
  · have hblocks := insert_blocks_unlink hit
    refine ⟨hblocks ▸ hs.unlink hit, ?_, hsize, ?_, ?_, ?_, ⟨rfl, rfl, rfl, rfl, rfl, rfl⟩⟩
    · intro hm
      exact ((hmem it).mp hm).1 rfl
    · intro b _ hbf
      exact ⟨rfl, rfl, fun hm => hbf ((hmem b).mp hm).2⟩
    · intro b hb
      exact hmagic b ((hmem b).mp hb).2
    · intro heven _ b hb
      exact heven b (hblocks ▸ hb)

end Heap

end MiniTree.Os
