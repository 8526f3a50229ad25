import MiniTree.Os.HeapRuns

/-!
# What the clients of the heap get

**Results.** `alloc_private`: when no two segments touch, an allocation lies in one segment, apart
from everything else, exactly when the rounding of its size does not wrap. `free_gives_back`: when
no two segments touch and their lengths are multiples of 8, a free puts exactly the block back, and
a heap without allocations is one free block for each segment. `free_rejects`: a free is rejected
without effect exactly when no segment holds the pointer.
-/

namespace MiniTree.Os.Heap

open MiniTree.Core Function List
open LTS.Reachable (of_execOk)

variable {maxSegs : Nat} {h h' : Heap} {p : Nat} {staticMem staticLen : Nat}
  {magic : Nat → UInt32} {size : Nat → Nat}

/-! ## Segments that do not touch -/

/-- There is a gap between any two segments. -/
structure Separated (h : Heap) : Prop where
  pos : ∀ s ∈ h.segs, 0 < s.2
  nodup : h.segs.Nodup
  gap : ∀ s ∈ h.segs, ∀ t ∈ h.segs, s ≠ t → s.1 + s.2 < t.1 ∨ t.1 + t.2 < s.1

/-- An expansion that leaves a gap to every segment. -/
def Separate (h : Heap) (l : Label) : Prop :=
  Lawful h l ∧ match l with
    | .expand mem len => ∀ s ∈ h.segs, mem + len < s.1 ∨ s.1 + s.2 < mem
    | .alloc _ | .free _ | .write _ _ _ => True

instance (h : Heap) : (l : Label) → Decidable (Separate h l)
  | .expand _ _ => inferInstanceAs (Decidable (_ ∧ ∀ s ∈ h.segs, _))
  | .alloc _ | .free _ | .write _ _ _ => inferInstanceAs (Decidable (_ ∧ _))

theorem segs_alloc (hi : Inv h) (size : Nat) : (h.memoryAlloc size).2.segs = h.segs := by
  rcases memoryAlloc_cases h size with he | ⟨it, hit, hsize, he⟩
  · rw [he]
  · rw [he]
    exact (hi.shape.take hit hsize hi.free).same.segs

theorem segs_free (hi : Inv h) (hp : p ∈ h.live) : (h.memoryFree p).1.segs = h.segs := by
  have hph := hi.live p hp
  unfold memoryFree
  split
  · rfl
  split
  · rw [hi.freelistFree hph]
    split
    · rfl
    · exact (hi.put hph).same.segs
  · rfl

theorem Separated.cons {segs : List (Nat × Nat)} {mem len : Nat} (hs : Separated h) (hlen : 0 < len)
    (hgap : ∀ s ∈ h.segs, mem + len < s.1 ∨ s.1 + s.2 < mem)
    (ha : segAdd maxSegs h.segs mem len = some segs) (h'segs : h'.segs = segs) : Separated h' := by
  have hnew : (mem, len) ∉ h.segs := by
    intro hm
    have := hgap _ hm
    dsimp only at this
    omega
  subst h'segs
  refine ⟨?_, (segAdd_eq ha).nodup_iff.mpr (nodup_cons.mpr ⟨hnew, hs.nodup⟩), ?_⟩
  · exact (forall_segAdd ha).mpr ⟨hlen, hs.pos⟩
  refine (forall_segAdd ha).mpr ⟨?_, fun s hsm => ?_⟩
  · exact (forall_segAdd ha).mpr ⟨fun hne => absurd rfl hne, fun t ht _ => hgap t ht⟩
  · exact (forall_segAdd ha).mpr ⟨fun _ => (hgap s hsm).symm, hs.gap s hsm⟩

theorem Separated.congr (hs : Separated h) (he : h'.segs = h.segs) : Separated h' := by
  refine ⟨?_, ?_, ?_⟩
  · rw [he]
    exact hs.pos
  · rw [he]
    exact hs.nodup
  · rw [he]
    exact hs.gap

theorem Separated.step (hs : Separated h) (hi : Inv h) {l : Label} (hl : Separate h l)
    (hn : next maxSegs h l = some h') : Separated h' := by
  obtain ⟨hlaw, hl⟩ := hl
  cases l with
  | alloc size =>
    cases hn
    exact hs.congr (segs_alloc hi size.toNat)
  | free ptr =>
    cases hn
    exact hs.congr (segs_free hi hlaw)
  | expand mem len =>
    cases hn
    rcases @memoryExpand_cases maxSegs h mem len with he | ⟨-, hlen, segs, ha, he⟩
    · rw [he]
      exact hs
    have hput := hi.extended hlen hlaw.2 ha
    refine hs.cons (by unfold hdrSize at hlen; omega) hl ha ?_
    rw [he]
    exact hput.same.segs
  | write a size magic =>
    cases hn
    exact hs.congr rfl

theorem separated_init
    (hinit : memoryInit maxSegs size magic staticMem staticLen = some h) : Separated h := by
  obtain ⟨hok, rfl⟩ := memoryInit_some hinit
  refine ⟨?_, nodup_singleton _, ?_⟩
  · intro s hs
    rw [mem_singleton.mp hs]
    unfold hdrSize at hok
    omega
  intro s hs t ht hne
  exact absurd ((mem_singleton.mp hs).trans (mem_singleton.mp ht).symm) hne

/-- An address lies in one segment only. -/
theorem Separated.unique (hs : Separated h) {s t : Nat × Nat} (hsm : s ∈ h.segs) (htm : t ∈ h.segs)
    {a : Nat} (h1 : s.1 ≤ a ∧ a < s.1 + s.2) (h2 : t.1 ≤ a ∧ a < t.1 + t.2) : s = t := by
  by_contra hne
  have := hs.gap s hsm t htm hne
  omega

/-- A run of managed addresses lies in one segment. -/
theorem Separated.one (hs : Separated h) {b e : Nat} (hbe : b < e)
    (hm : ∀ a, b ≤ a → a < e → a ∈ h.managed) : ∃ s ∈ h.segs, s.1 ≤ b ∧ e ≤ s.1 + s.2 := by
  obtain ⟨s, hsm, h1, h2⟩ := hm b (le_refl b) hbe
  refine ⟨s, hsm, h1, ?_⟩
  by_contra hlt
  obtain ⟨t, htm, h3, h4⟩ := hm (s.1 + s.2) (by omega) (by omega)
  have hne : s ≠ t := by
    intro he
    subst he
    omega
  have := hs.gap s hsm t htm hne
  omega

theorem Separated.block (hs : Separated h) (hi : Inv h) {b : Nat} (hb : b ∈ h.blocks) :
    ∃ s ∈ h.segs, s.1 ≤ b ∧ b + h.len b ≤ s.1 + s.2 := by
  have hpos := hi.shape.part.pos b hb
  refine hs.one (by omega) ?_
  intro a h1 h2
  exact (hi.shape.part.cover a).mpr ⟨b, hb, h1, h2⟩

/-! ## Allocations -/

/-- The `size` bytes at `p` lie in one segment, apart from every other held block, from every free
block and from every header. -/
structure Private (h : Heap) (p size : Nat) : Prop where
  inside : ∃ s ∈ h.segs, s.1 ≤ p ∧ p + size ≤ s.1 + s.2
  apart : ∀ a, p ≤ a → a < p + size → (∀ q ∈ h.live, q ≠ p → ¬ InBlock h.len (q - hdrSize) a) ∧
    (∀ b ∈ h.freeList, ¬ InBlock h.len b a) ∧ ∀ b ∈ h.blocks, ¬ (b ≤ a ∧ a < b + hdrSize)

theorem alignUp_le {size : Nat} (hs : size ≤ 2 ^ 32 - 8) : size ≤ alignUp size := by
  unfold alignUp
  omega

/-- What lies in the payload of a block lies in no other block and in no header. -/
theorem Inv.payload (hi : Inv h) {it : Nat} (hit : it + hdrSize ∈ h.handed) {n : Nat}
    (hn : n ≤ h.size it) {a : Nat} (h1 : it + hdrSize ≤ a) (h2 : a < it + hdrSize + n) :
    (∀ q ∈ h.live, q ≠ it + hdrSize → ¬ InBlock h.len (q - hdrSize) a) ∧
      (∀ b ∈ h.freeList, ¬ InBlock h.len b a) ∧ ∀ b ∈ h.blocks, ¬ (b ≤ a ∧ a < b + hdrSize) := by
  have hlen : h.len it = hdrSize + h.size it := rfl
  have hown : InBlock h.len it a := ⟨by omega, by omega⟩
  have hitB : it ∈ h.blocks := .inr hit
  refine ⟨?_, ?_, ?_⟩
  · intro q hq hne hqa
    have hback := hi.header (hi.live q hq)
    have := hi.shape.part.apart _ (.inr (by rw [hback]; exact hi.live q hq)) it hitB a hqa hown
    omega
  · intro b hb hba
    have := hi.shape.part.apart b (.inl hb) it hitB a hba hown
    exact (hi.handed it hit).1 (this ▸ hb)
  · intro b hb hba
    have hblen : h.len b = hdrSize + h.size b := rfl
    have := hi.shape.part.apart b hb it hitB a ⟨hba.1, by omega⟩ hown
    omega

theorem sepInv_reachable (hr : ((system maxSegs).restrict Separate).Reachable h) :
    Inv h ∧ Separated h := by
  have hinv : ((system maxSegs).restrict Separate).IsInvariant fun h => Inv h ∧ Separated h := by
    refine ⟨fun h h0 => ?_, fun h l h' hi hn => ?_⟩
    · obtain ⟨size, magic, staticMem, staticLen, hspace, hinit⟩ := h0
      exact ⟨Inv.init hspace hinit, separated_init hinit⟩
    · exact ⟨hi.1.step hn.1.1 hn.2, hi.2.step hi.1 hn.1 hn.2⟩
  exact hinv.holds hr

theorem alloc_private (maxSegs : Nat) {h : Heap}
    (hr : ((system maxSegs).restrict Separate).Reachable h) (size : BitVec 32) {p : Nat}
    (hp : (h.memoryAlloc size.toNat).1 = some p) :
    Private (h.memoryAlloc size.toNat).2 p size.toNat ↔ size.toNat ≤ 2 ^ 32 - 8 := by
  obtain ⟨hi, hsep⟩ := sepInv_reachable hr
  rcases memoryAlloc_cases h size.toNat with he | ⟨it, hit, hsize, he⟩
  · rw [he] at hp
    cases hp
  have ht := hi.shape.take hit hsize hi.free
  have hi' := hi.handOut hit hsize
  set h' := h.handOut it (alignUp size.toNat)
  have hsep' : Separated h' := hsep.congr ht.same.segs
  have hph : it + hdrSize ∈ h'.handed := mem_cons_self
  have hroom : alignUp size.toNat ≤ h'.size it := ht.room
  rw [he] at hp ⊢
  cases hp
  constructor
  · intro hpriv
    obtain ⟨s, hs, h1, h2⟩ := hpriv.inside
    have := hi'.space s hs
    unfold hdrSize at h1 h2
    omega
  · intro hsz
    have hle := le_trans (alignUp_le hsz) hroom
    refine ⟨?_, fun a h1 h2 => hi'.payload hph hle h1 h2⟩
    obtain ⟨s, hs, h1, h2⟩ := hsep'.block hi' (.inr hph)
    have hlen : h'.len it = hdrSize + h'.size it := rfl
    exact ⟨s, hs, by omega, by omega⟩

theorem alloc_private_ten : ∃ h, ((system 4).restrict Separate).Reachable h ∧
    (h.memoryAlloc (10 : BitVec 32).toNat).1 = some 4112 ∧
      (Private (h.memoryAlloc (10 : BitVec 32).toNat).2 4112 (10 : BitVec 32).toNat ↔
        (10 : BitVec 32).toNat ≤ 2 ^ 32 - 8) := by
  obtain ⟨h, hr, hp⟩ := of_execOk (system 4).init (next 4) Separate pool
    [.expand 8192 64, .alloc 40]
    (fun h => (h.memoryAlloc (10 : BitVec 32).toNat).1 = some 4112) pool_init (by decide +kernel)
  exact ⟨h, hr, hp, alloc_private 4 hr 10 hp⟩

/-- A size whose rounding wraps to zero gets a block without payload. -/
theorem alloc_wraps : ¬ ∀ (maxSegs : Nat) (h : Heap),
    ((system maxSegs).restrict Lawful).Reachable h → ∀ (size : BitVec 32) (p : Nat),
      (h.memoryAlloc size.toNat).1 = some p → Private (h.memoryAlloc size.toNat).2 p size.toNat := by
  intro hall
  obtain ⟨h, hr, hsome, hsegs⟩ := of_execOk (system 4).init (next 4) Lawful pool []
    (fun h => (h.memoryAlloc (0xFFFFFFFF : BitVec 32).toNat).1 = some 4112 ∧
      ∀ s ∈ (h.memoryAlloc (0xFFFFFFFF : BitVec 32).toNat).2.segs, s.1 + s.2 < 2 ^ 32)
    pool_init (by decide +kernel)
  obtain ⟨s, hs, h1, h2⟩ := (hall 4 h hr 0xFFFFFFFF 4112 hsome).inside
  have hlt := hsegs s hs
  have hsize : (0xFFFFFFFF : BitVec 32).toNat = 4294967295 := by decide
  omega

/-! ## Frees -/

/-- The lengths are multiples of 8 too. -/
def Sound (h : Heap) (l : Label) : Prop :=
  Separate h l ∧ (∀ s ∈ h.segs, s.2 % 8 = 0) ∧ match l with
    | .expand _ len => len % 8 = 0
    | .alloc _ | .free _ | .write _ _ _ => True

instance (h : Heap) : (l : Label) → Decidable (Sound h l)
  | .expand _ _ | .alloc _ | .free _ | .write _ _ _ =>
    inferInstanceAs (Decidable (_ ∧ (∀ s ∈ h.segs, _) ∧ _))

/-- Every block that is handed out is held. With segments that are multiples of 8, so are the
blocks. -/
structure Even (h : Heap) : Prop where
  held : ∀ p ∈ h.handed, p ∈ h.live
  sizes : (∀ s ∈ h.segs, s.2 % 8 = 0) → ∀ b ∈ h.blocks, h.size b % 8 = 0

theorem alignUp_even (size : Nat) : alignUp size % 8 = 0 := by
  unfold alignUp
  omega

/-- A pointer that was handed out lies in a segment behind its base's header. -/
theorem Separated.inSegments (hs : Separated h) (hi : Inv h) (hp : p ∈ h.handed) :
    p ≠ 0 ∧ h.ptrInSegments p = true := by
  have hback := hi.header hp
  have hB : p - hdrSize ∈ h.blocks := .inr (hback ▸ hp)
  have hlen : h.len (p - hdrSize) = hdrSize + h.size (p - hdrSize) := rfl
  obtain ⟨s, hsm, h1, h2⟩ := hs.block hi hB
  refine ⟨?_, ?_⟩
  · unfold hdrSize at hback
    omega
  · refine any_eq_true.mpr ⟨s, hsm, decide_eq_true ⟨by omega, by omega⟩⟩

theorem Even.memoryFree (he : Even h) (hs : Separated h) (hi : Inv h)
    (hseg : ∀ s ∈ h.segs, s.2 % 8 = 0) (hp : p ∈ h.live) : h.memoryFree p =
      ({ (h.marked p).merge (p - hdrSize) with
          used := h.used - 1, live := h.live.erase p }, true) := by
  have hph := hi.live p hp
  obtain ⟨h0, hin⟩ := hs.inSegments hi hph
  have hB : p - hdrSize ∈ h.blocks := .inr (hi.header hph ▸ hph)
  unfold Heap.memoryFree
  rw [if_neg h0, if_pos hin, hi.freelistFree hph, if_neg (fun hne => hne (he.sizes hseg _ hB))]

theorem Even.step (he : Even h) (hs : Separated h) (hi : Inv h) {l : Label} (hl : Sound h l)
    (hn : next maxSegs h l = some h') : Even h' := by
  obtain ⟨hsep, hseg, hl⟩ := hl
  cases l with
  | alloc size =>
    cases hn
    rcases memoryAlloc_cases h size.toNat with heq | ⟨it, hit, hsize, heq⟩
    · rw [heq]
      exact he
    have ht := hi.shape.take hit hsize hi.free
    rw [heq]
    refine ⟨?_, ?_⟩
    · rw [ht.handOut.1, ht.handOut.2]
      exact forall_mem_cons.mpr ⟨mem_cons_self, fun p hp => mem_cons_of_mem _ (he.held p hp)⟩
    · intro _ b hb
      rw [blocks_handOut] at hb
      exact ht.even (he.sizes hseg) (alignUp_even _) b hb
  | free ptr =>
    cases hn
    have hph := hi.live ptr hsep.1
    have hput := hi.put hph
    rw [he.memoryFree hs hi hseg hsep.1]
    refine ⟨?_, ?_⟩
    · intro q hq
      change q ∈ Heap.handed _ at hq
      rw [hput.same.handed] at hq
      obtain ⟨hne, hq⟩ := hi.handedNodup.mem_erase_iff.mp hq
      exact hi.liveNodup.mem_erase_iff.mpr ⟨hne, he.held q hq⟩
    · intro _ b hb
      refine hput.even ?_ b hb
      intro c hc
      refine he.sizes hseg c ?_
      rcases hc with rfl | hc | hc
      · exact .inr (hi.header hph ▸ hph)
      · exact .inl hc
      · exact .inr (mem_of_mem_erase hc)
  | expand mem len =>
    cases hn
    rcases @memoryExpand_cases maxSegs h mem len with heq | ⟨-, hlen, segs, ha, heq⟩
    · rw [heq]
      exact he
    have hput := hi.extended hlen hsep.1.2 ha
    have hgap := hsep.2
    rw [heq]
    refine ⟨?_, ?_⟩
    · intro q hq
      change q ∈ Heap.handed _ at hq
      rw [hput.same.live]
      rw [hput.same.handed] at hq
      exact he.held q hq
    · intro _ b hb
      refine hput.even ?_ b hb
      intro c hc
      by_cases hcm : c = mem
      · rw [hcm]
        refine (congrArg (· % 8) (update_self ..)).trans ?_
        unfold hdrSize at hlen ⊢
        omega
      · exact (congrArg (· % 8) (update_of_ne hcm ..)).trans
          (he.sizes hseg c (hc.resolve_left hcm))
  | write a size magic =>
    cases hn
    refine ⟨he.held, ?_⟩
    intro _ b hb
    have hne : b ≠ a := fun heq => hi.payload_start hsep.1 (heq ▸ hb)
    exact (congrArg (· % 8) (update_of_ne hne ..)).trans (he.sizes hseg b hb)

theorem even_init
    (hinit : memoryInit maxSegs size magic staticMem staticLen = some h) : Even h := by
  obtain ⟨hok, rfl⟩ := memoryInit_some hinit
  refine ⟨fun p hp => absurd hp not_mem_nil, ?_⟩
  intro hseg b hb
  have hlen : staticLen % 8 = 0 := hseg _ mem_cons_self
  have hb' : b = staticMem := by
    rcases hb with hb | hb
    · simpa [Heap.push, Heap.setSize, cleared] using hb
    · exact absurd hb not_mem_nil
  rw [hb']
  refine (congrArg (· % 8) (update_self ..)).trans ?_
  unfold hdrSize at hok ⊢
  omega

theorem evenInv_reachable (hr : ((system maxSegs).restrict Sound).Reachable h) :
    Inv h ∧ Separated h ∧ Even h := by
  have hinv : ((system maxSegs).restrict Sound).IsInvariant fun h => Inv h ∧ Separated h ∧ Even h := by
    refine ⟨fun h h0 => ?_, fun h l h' hi hn => ?_⟩
    · obtain ⟨size, magic, staticMem, staticLen, hspace, hinit⟩ := h0
      exact ⟨Inv.init hspace hinit, separated_init hinit, even_init hinit⟩
    · exact ⟨hi.1.step hn.1.1.1 hn.2, hi.2.1.step hi.1 hn.1.1 hn.2,
        hi.2.2.step hi.2.1 hi.1 hn.1 hn.2⟩
  exact hinv.holds hr

def FreeByte (h : Heap) (a : Nat) : Prop := ∃ b ∈ h.freeList, InBlock h.len b a

/-- What is managed and not handed out is free. -/
theorem Inv.freeByte_iff (hi : Inv h) (a : Nat) : FreeByte h a ↔
    a ∈ h.managed ∧ ∀ b, b + hdrSize ∈ h.handed → ¬ InBlock h.len b a := by
  constructor
  · intro hf
    obtain ⟨b, hb, hba⟩ := hf
    refine ⟨(hi.shape.part.cover a).mpr ⟨b, .inl hb, hba⟩, ?_⟩
    intro c hc hca
    have he := hi.shape.part.apart b (.inl hb) c (.inr hc) a hba hca
    exact (hi.handed c hc).1 (he ▸ hb)
  · intro hf
    obtain ⟨b, hb, hba⟩ := (hi.shape.part.cover a).mp hf.1
    rcases hb with hb | hb
    · exact ⟨b, hb, hba⟩
    · exact absurd hba (hf.2 b hb)

/-- Exactly the bytes of the block at `p` become free. -/
structure GivenBack (h h' : Heap) (p : Nat) : Prop where
  bytes : ∀ a, FreeByte h' a ↔ FreeByte h a ∨ InBlock h.len (p - hdrSize) a
  freeSize : h'.freeSize = h.freeSize + BitVec.ofNat 32 (h.len (p - hdrSize))

theorem Even.givenBack (he : Even h) (hs : Separated h) (hi : Inv h)
    (hseg : ∀ s ∈ h.segs, s.2 % 8 = 0) (hp : p ∈ h.live) :
    (h.memoryFree p).2 = true ∧ GivenBack h (h.memoryFree p).1 p := by
  have hi' := hi.free_ hp
  have hph := hi.live p hp
  have hback := hi.header hph
  have hB : p - hdrSize ∈ h.blocks := .inr (hback ▸ hph)
  have hput := hi.put hph
  have hsegs := segs_free hi hp
  have hmanaged : (h.memoryFree p).1.managed = h.managed := by
    unfold managed
    rw [hsegs]
  have hfree := he.memoryFree hs hi hseg hp
  -- the blocks that stay handed out keep their size
  have hhanded : (h.memoryFree p).1.handed = h.handed.erase p := by
    rw [hfree]
    exact hput.same.handed
  have hkept : ∀ b, b + hdrSize ∈ h.handed.erase p → (h.memoryFree p).1.len b = h.len b := by
    intro b hb
    rw [hfree]
    exact congrArg (hdrSize + ·) (hput.kept b hb).1
  refine ⟨by rw [hfree], ?_, ?_⟩
  · intro a
    rw [hi'.freeByte_iff, hi.freeByte_iff, hmanaged, hhanded]
    constructor
    · intro hf
      by_cases hpa : InBlock h.len (p - hdrSize) a
      · exact .inr hpa
      refine .inl ⟨hf.1, ?_⟩
      intro b hb hba
      by_cases hbp : b = p - hdrSize
      · exact hpa (hbp ▸ hba)
      have hbe : b + hdrSize ∈ h.handed.erase p :=
        hi.handedNodup.mem_erase_iff.mpr ⟨by omega, hb⟩
      refine hf.2 b hbe ?_
      unfold InBlock
      rw [hkept b hbe]
      exact hba
    · intro hf
      have hin : ∀ b, b + hdrSize ∈ h.handed.erase p → InBlock (h.memoryFree p).1.len b a →
          InBlock h.len b a ∧ b ≠ p - hdrSize ∧ b + hdrSize ∈ h.handed := by
        intro b hb hba
        obtain ⟨hne, hb'⟩ := hi.handedNodup.mem_erase_iff.mp hb
        unfold InBlock at hba
        rw [hkept b hb] at hba
        exact ⟨hba, by omega, hb'⟩
      rcases hf with hf | hf
      · exact ⟨hf.1, fun b hb hba => hf.2 b (hin b hb hba).2.2 (hin b hb hba).1⟩
      refine ⟨(hi.shape.part.cover a).mpr ⟨_, hB, hf⟩, ?_⟩
      intro b hb hba
      obtain ⟨hba, hne, hb⟩ := hin b hb hba
      exact hne (hi.shape.part.apart b (.inr hb) _ hB a hba hf)
  · rw [hfree]
    exact hput.total

/-- Without allocations each segment is one free block. -/
theorem Inv.segment_free (hi : Inv h) (hs : Separated h) (hnone : h.handed = []) {s : Nat × Nat}
    (hsm : s ∈ h.segs) : s.1 ∈ h.freeList ∧ h.len s.1 = s.2 := by
  have hfree : ∀ b ∈ h.blocks, b ∈ h.freeList := by
    intro b hb
    rcases hb with hb | hb
    · exact hb
    · rw [hnone] at hb
      exact absurd hb not_mem_nil
  -- a block that holds an address of `s` lies in `s`
  have hin : ∀ b ∈ h.blocks, ∀ a, InBlock h.len b a → s.1 ≤ a → a < s.1 + s.2 →
      s.1 ≤ b ∧ b + h.len b ≤ s.1 + s.2 := by
    intro b hb a hba h1 h2
    obtain ⟨t, htm, h3, h4⟩ := hs.block hi hb
    have hba' : b ≤ a ∧ a < b + h.len b := hba
    have hst : s = t := hs.unique hsm htm ⟨h1, h2⟩ ⟨by omega, by omega⟩
    rw [hst]
    exact ⟨h3, h4⟩
  have hpos := hs.pos s hsm
  have hstart : s.1 ∈ h.managed := ⟨s, hsm, le_refl _, by omega⟩
  obtain ⟨b, hb, hba⟩ := (hi.shape.part.cover s.1).mp hstart
  obtain ⟨h1, h2⟩ := hin b hb s.1 hba (le_refl _) (by omega)
  obtain rfl : b = s.1 := hba.1.antisymm h1
  refine ⟨hfree _ hb, ?_⟩
  by_contra hne
  -- the block behind it would touch it
  have hend : s.1 + h.len s.1 ∈ h.managed := ⟨s, hsm, by omega, by omega⟩
  obtain ⟨c, hc, hca⟩ := (hi.shape.part.cover _).mp hend
  obtain ⟨h3, -⟩ := hin c hc _ hca (by omega) (by omega)
  have hca' : c ≤ s.1 + h.len s.1 ∧ s.1 + h.len s.1 < c + h.len c := hca
  have hcpos := hi.shape.part.pos c hc
  by_cases hlt : c < s.1 + h.len s.1
  · have he := hi.shape.part.apart c hc _ hb c ⟨le_refl c, by omega⟩ ⟨h3, hlt⟩
    rw [he] at hca'
    omega
  · exact hi.shape.untouched _ (hfree _ hb) c (hfree c hc) (by omega)

theorem Inv.all_free (hi : Inv h) (hs : Separated h) (hnone : h.handed = []) :
    h.freeList.Perm (h.segs.map Prod.fst) ∧ h.freeSize.toNat = (h.segs.map Prod.snd).sum := by
  have hseg := fun s hsm => hi.segment_free hs hnone (s := s) hsm
  have hnodup : (h.segs.map Prod.fst).Nodup := by
    refine hs.nodup.map_on ?_
    intro s hsm t htm he
    have h1 := hs.pos s hsm
    have h2 := hs.pos t htm
    exact hs.unique hsm htm ⟨le_refl _, by omega⟩ ⟨by omega, by omega⟩
  have hperm : h.freeList.Perm (h.segs.map Prod.fst) := by
    refine (perm_ext_iff_of_nodup hi.shape.nodup hnodup).mpr fun b => ?_
    constructor
    · intro hb
      obtain ⟨s, hsm, h1, h2⟩ := hi.shape.part.start_mem (.inl hb : b ∈ h.blocks)
      obtain ⟨hsf, hslen⟩ := hseg s hsm
      have hpos := hi.shape.part.pos b (.inl hb)
      have he := hi.shape.part.apart b (.inl hb) s.1 (.inl hsf) b ⟨le_refl b, by omega⟩
        ⟨h1, by omega⟩
      exact mem_map.mpr ⟨s, hsm, he.symm⟩
    · intro hb
      obtain ⟨s, hsm, rfl⟩ := mem_map.mp hb
      exact (hseg s hsm).1
  refine ⟨hperm, ?_⟩
  rw [hi.tidy.freeSize, (hperm.map h.len).sum_eq, map_map]
  exact congrArg List.sum (map_congr_left fun s hsm => (hseg s hsm).2)

theorem free_gives_back (maxSegs : Nat) {h : Heap}
    (hr : ((system maxSegs).restrict Sound).Reachable h) :
    (∀ p, Sound h (.free p) → (h.memoryFree p).2 = true ∧ GivenBack h (h.memoryFree p).1 p) ∧
      (h.live = [] → h.freeSize.toNat = (h.segs.map Prod.snd).sum ∧
        h.freeList.Perm (h.segs.map Prod.fst) ∧ ∀ s ∈ h.segs, h.len s.1 = s.2) := by
  obtain ⟨hi, hs, he⟩ := evenInv_reachable hr
  refine ⟨fun p hp => he.givenBack hs hi hp.2.1 hp.1.1, fun hnone => ?_⟩
  have hhanded : h.handed = [] := by
    refine eq_nil_iff_forall_not_mem.mpr fun p hp => ?_
    have hlive := he.held p hp
    rw [hnone] at hlive
    exact not_mem_nil hlive
  obtain ⟨hperm, hsum⟩ := hi.all_free hs hhanded
  exact ⟨hsum, hperm, fun s hsm => (hi.segment_free hs hhanded hsm).2⟩

theorem free_gives_back_first : ∃ h, ((system 4).restrict Sound).Reachable h ∧
    Sound h (.free 4112) ∧ (h.memoryFree 4112).2 = true ∧ GivenBack h (h.memoryFree 4112).1 4112 := by
  obtain ⟨h, hr, hp⟩ := of_execOk (system 4).init (next 4) Sound pool
    [.alloc 10, .alloc 16] (fun h => Sound h (.free 4112)) pool_init (by decide +kernel)
  exact ⟨h, hr, hp, (free_gives_back 4 hr).1 4112 hp⟩

def oddPool : Heap :=
  ((cleared (fun _ => 0) (fun _ => 0) 37 [(4096, 37)]).setSize 4096 21).push 4096

/-- The tail of a segment that is not a multiple of 8 is never given back. -/
theorem free_leaks : ¬ ∀ (maxSegs : Nat) (h : Heap),
    ((system maxSegs).restrict Lawful).Reachable h → ∀ p ∈ h.live,
      (h.memoryFree p).2 = true ∧ GivenBack h (h.memoryFree p).1 p := by
  intro hall
  obtain ⟨h, hr, hlive, hf', hf, hlen⟩ := of_execOk (system 4).init (next 4) Lawful oddPool [.alloc 16]
    (fun h => 4112 ∈ h.live ∧ (h.memoryFree 4112).1.freeSize = 0 ∧ h.freeSize = 0 ∧
      h.len (4112 - hdrSize) = 37)
    ⟨fun _ => 0, fun _ => 0, 4096, 37, by decide, rfl⟩ (by decide +kernel)
  have hback := (hall 4 h hr 4112 hlive).2.freeSize
  rw [hf', hf, hlen] at hback
  exact absurd hback (by decide)

/-! ## Frees of other pointers -/

/-- The free is refused and the heap is as it was. -/
def Rejected (h : Heap) (ptr : Nat) : Prop := h.memoryFree ptr = (h, false)

/-- No segment has `ptr` behind the header of its base. -/
def Outside (h : Heap) (ptr : Nat) : Prop := ∀ s ∈ h.segs, ptr < s.1 + hdrSize ∨ s.1 + s.2 < ptr

theorem outside_iff (h : Heap) (ptr : Nat) : h.ptrInSegments ptr = false ↔ Outside h ptr := by
  unfold ptrInSegments Outside
  rw [any_eq_false]
  refine forall₂_congr fun s _ => ?_
  rw [decide_eq_true_iff]
  omega

/-- A second free of a block: the header check stops it, but it is counted and reported as done. -/
theorem Inv.free_twice (hi : Inv h) {ptr : Nat} (hp : ptr ∉ h.live)
    (hb : ptr - hdrSize ∈ h.freeList) (hin : ¬ Outside h ptr) :
    h.memoryFree ptr = ({ h with used := h.used - 1 }, true) := by
  have hseg : h.ptrInSegments ptr = true := by
    rw [← Bool.not_eq_false, outside_iff]
    exact hin
  have h0 : ptr ≠ 0 := by
    intro he
    refine hin fun s _ => .inl ?_
    unfold hdrSize
    omega
  have hmagic : h.magic (ptr - hdrSize) ≠ magicAlloc := by
    rw [hi.free _ hb]
    decide
  unfold memoryFree
  rw [if_neg h0, if_pos hseg, erase_of_not_mem hp]
  unfold Heap.freelistFree
  rw [if_pos hmagic]

theorem free_rejects (maxSegs : Nat) {h : Heap}
    (hr : ((system maxSegs).restrict Lawful).Reachable h) {ptr : Nat} (hp : ptr ∉ h.live) :
    (Rejected h ptr ↔ Outside h ptr) ∧ (ptr - hdrSize ∈ h.freeList → ¬ Outside h ptr →
        h.memoryFree ptr = ({ h with used := h.used - 1 }, true)) := by
  refine ⟨?_, (inv_reachable hr).free_twice hp⟩
  unfold Rejected memoryFree
  rw [← outside_iff]
  by_cases h0 : ptr = 0
  · have hout : h.ptrInSegments ptr = false := by
      rw [outside_iff]
      intro s _
      unfold hdrSize
      omega
    simp [h0, h0 ▸ hout]
  · cases hseg : h.ptrInSegments ptr <;> simp [h0]

/-- An address below the pool, while a block is held. -/
theorem free_rejects_foreign : ∃ h, ((system 4).restrict Lawful).Reachable h ∧
    (64 ∉ h.live ∧ h.used = 1) ∧ ((Rejected h 64 ↔ Outside h 64) ∧
      (64 - hdrSize ∈ h.freeList → ¬ Outside h 64 →
        h.memoryFree 64 = ({ h with used := h.used - 1 }, true))) := by
  obtain ⟨h, hr, hp⟩ := of_execOk (system 4).init (next 4) Lawful pool [.alloc 10]
    (fun h => 64 ∉ h.live ∧ h.used = 1) pool_init (by decide +kernel)
  exact ⟨h, hr, hp, free_rejects 4 hr hp.1⟩

/-- A second free of the same pointer is reported as done, and counted. -/
theorem free_twice_accepted : ¬ ∀ (maxSegs : Nat) (h : Heap),
    ((system maxSegs).restrict Lawful).Reachable h → ∀ ptr, ptr ∉ h.live → Rejected h ptr := by
  intro hall
  obtain ⟨h, hr, hlive, hok⟩ := of_execOk (system 4).init (next 4) Lawful pool
    [.alloc 10, .alloc 10, .free 4112]
    (fun h => 4112 ∉ h.live ∧ (h.memoryFree 4112).2 = true) pool_init (by decide +kernel)
  have hrej := hall 4 h hr 4112 hlive
  unfold Rejected at hrej
  rw [hrej] at hok
  cases hok

end MiniTree.Os.Heap
