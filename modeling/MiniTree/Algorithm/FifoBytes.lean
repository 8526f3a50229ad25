import MiniTree.Algorithm.FifoRefines

/-!
# Byte rings

The network ports keep their data in `fifo_uni` rings of one-byte items and use the block
calls only. `Holds h xs` says which bytes a ring holds; a block write appends what fits, a
block read takes from the front, and a chain of blocks is stored block by block.
-/

namespace MiniTree.Algorithm

open List

variable {β : Type*} {h : Spsc β} {xs : List β}

def payload (chain : List (Block β)) : List β := chain.flatMap Subtype.val

/-- The loop of a receive callback over a pbuf chain: the ring and the bytes stored so far.
mirrors net/port/tcp/tcp_client.c:108-119 and net/port/tcp/tcp_server.c:116-129 -/
def storeChain : List (Block β) → Spsc β × UInt16 → Spsc β × UInt16
  | [], s => s
  | buf :: rest, (h, total) =>
    if buf.len = 0 then storeChain rest (h, total)
    else
      let r := h.writeBlock buf.val buf.len
      storeChain rest (r.2.2, total + r.2.1)

structure Holds (h : Spsc β) (xs : List β) : Prop where
  item : h.itemSize = 1
  rep : Rep h xs xs.length

namespace Holds

theorem init {buf : Nat → β} {size : UInt16} (hi : fifoUniInit buf 1 size = some h) :
    Holds h [] ∧ h.size = size := by
  have hrep := Rep.init hi
  obtain ⟨-, ⟨⟩⟩ := Option.ite_none_left_eq_some.mp hi
  exact ⟨⟨rfl, hrep⟩, rfl⟩

theorem length_le (r : Holds h xs) : xs.length ≤ h.size.toNat := r.rep.le

theorem count_toNat (r : Holds h xs) : h.count.toNat = xs.length := r.rep.count_toNat

theorem itemSize_toNat (r : Holds h xs) : h.itemSize.toNat = 1 := by
  rw [r.item]
  rfl

theorem size_le (r : Holds h xs) : h.size.toNat ≤ 2 ^ 15 := by
  obtain ⟨e, he, hs⟩ := r.rep.size
  rw [hs]
  exact Nat.pow_le_pow_right (by decide) (by omega)

def fits (h : Spsc β) (xs data : List β) : Nat := min data.length (h.size.toNat - xs.length)

theorem write (r : Holds h xs) (b : Block β) : (h.writeBlock b.val b.len).2.1.toNat = fits h xs b.val ∧
      Holds (h.writeBlock b.val b.len).2.2 (xs ++ b.val.take (fits h xs b.val)) ∧
      (h.writeBlock b.val b.len).2.2.size = h.size := by
  have hlen : b.val.length = b.len.toNat * h.itemSize.toNat := by
    rw [r.itemSize_toNat, mul_one, b.len_toNat]
  have hlt : fits h xs b.val < 2 ^ 16 := lt_of_le_of_lt (min_le_left ..) b.property
  have hle := r.length_le
  have hk : (b.val.take (fits h xs b.val)).length = fits h xs b.val := by simp [fits]
  rw [r.rep.writeBlock_eq hlen, b.len_toNat, r.itemSize_toNat, mul_one]
  refine ⟨UInt16.toNat_ofNat_of_lt' hlt, ⟨r.item, ?_⟩, rfl⟩
  rw [length_append, hk]
  refine r.rep.push (by omega) ?_
  rw [r.itemSize_toNat, mul_one]
  exact hk

theorem read (r : Holds h xs) (n : UInt16) : (h.readBlock n).2.1 = xs.take n.toNat ∧
      Holds (h.readBlock n).2.2 (xs.drop n.toNat) ∧ (h.readBlock n).2.2.size = h.size := by
  rw [r.rep.readBlock_eq, r.itemSize_toNat, mul_one]
  refine ⟨by rw [← take_eq_take_min], ⟨r.item, ?_⟩, rfl⟩
  have hpop := r.rep.pop (k := min n.toNat xs.length) (min_le_right ..)
  rwa [r.itemSize_toNat, mul_one, ← length_drop, ← drop_eq_drop_min] at hpop

theorem storeChain (chain : List (Block β)) (r : Holds h xs) (total : UInt16) :
    ∃ taken, Holds (storeChain chain (h, total)).1 (xs ++ taken) ∧
      (Algorithm.storeChain chain (h, total)).2 = total + .ofNat taken.length ∧
      (Algorithm.storeChain chain (h, total)).1.size = h.size ∧ taken.Sublist (payload chain) ∧
      ((payload chain).length + xs.length ≤ h.size.toNat → taken = payload chain) := by
  induction chain generalizing h xs total with
  | nil =>
    refine ⟨[], ?_, ?_, rfl, List.Sublist.refl _, fun _ => rfl⟩
    · rw [append_nil]
      exact r
    · exact (UInt16.add_zero total).symm
  | cons buf rest ih =>
    have hp : payload (buf :: rest) = buf.val ++ payload rest := flatMap_cons ..
    unfold Algorithm.storeChain
    split
    · rename_i hnil
      rw [hp, buf.len_eq_zero.mp hnil, nil_append]
      exact ih r total
    obtain ⟨hact, hholds, hsize⟩ := r.write buf
    obtain ⟨taken, h1, h2, h3, h4, h5⟩ := ih hholds (total + (h.writeBlock buf.val buf.len).2.1)
    refine ⟨buf.val.take (fits h xs buf.val) ++ taken, ?_, ?_, h3.trans hsize, ?_, ?_⟩
    · rw [← append_assoc]
      exact h1
    · have hlen : (buf.val.take (fits h xs buf.val)).length = fits h xs buf.val := by simp [fits]
      have hcast : (h.writeBlock buf.val buf.len).2.1 = .ofNat (fits h xs buf.val) := by
        rw [← hact, UInt16.ofNat_toNat]
      rw [length_append, hlen, UInt16.ofNat_add, ← UInt16.add_assoc, ← hcast]
      exact h2
    · rw [hp]
      exact (take_sublist ..).append h4
    · intro hfit
      rw [hp, length_append] at hfit
      have hall : fits h xs buf.val = buf.val.length := by
        unfold fits
        omega
      rw [hall, take_length] at h5 ⊢
      rw [hp, h5 (by rw [hsize, length_append]; omega)]

end Holds

end MiniTree.Algorithm
