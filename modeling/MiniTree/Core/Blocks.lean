import Mathlib.Algebra.Order.BigOperators.Group.Finset
import Mathlib.Algebra.BigOperators.Group.Finset.Basic
import Mathlib.Algebra.GroupWithZero.Nat
import Mathlib.Data.Finset.Basic
import Mathlib.Order.Interval.Finset.Nat

/-!
# Blocks that partition a region

A set of blocks, each given by its address and a length, partitions a region when every address of
the region lies in exactly one block and no block reaches outside.

**Results.** `Partition.join`, `Partition.split` and `Partition.insert`: what stays a partition when two
blocks are joined, one is split, and a new one is added. `Partition.sum_le`: the lengths of blocks of a
bounded region do not exceed it.
-/

namespace MiniTree.Core

open Function Finset

variable {B R : Set ℕ} {len : ℕ → ℕ}

/-- Address `a` lies in the block at `b`. -/
def InBlock (len : ℕ → ℕ) (b a : ℕ) : Prop := b ≤ a ∧ a < b + len b

structure Partition (B : Set ℕ) (len : ℕ → ℕ) (R : Set ℕ) : Prop where
  pos : ∀ b ∈ B, 0 < len b
  apart : ∀ b ∈ B, ∀ c ∈ B, ∀ a, InBlock len b a → InBlock len c a → b = c
  cover : ∀ a, a ∈ R ↔ ∃ b ∈ B, InBlock len b a

namespace Partition

theorem congr {len' : ℕ → ℕ} (h : Partition B len R) (he : ∀ b ∈ B, len' b = len b) : Partition B len' R := by
  have hin : ∀ b ∈ B, ∀ a, InBlock len' b a ↔ InBlock len b a := by
    intro b hb a
    unfold InBlock
    rw [he b hb]
  refine ⟨fun b hb => ?_, fun b hb c hc a hba hca => ?_, fun a => ?_⟩
  · rw [he b hb]
    exact h.pos b hb
  · exact h.apart b hb c hc a ((hin b hb a).mp hba) ((hin c hc a).mp hca)
  · rw [h.cover]
    exact exists_congr fun b => and_congr_right fun hb => (hin b hb a).symm

section
variable (h : Partition B len R)
include h

variable {b n : ℕ}

theorem start_mem (hb : b ∈ B) : b ∈ R :=
  (h.cover b).mpr ⟨b, hb, le_refl b, Nat.lt_add_of_pos_right (h.pos b hb)⟩

theorem mem_of_inBlock {a : ℕ} (hb : b ∈ B) (ha : InBlock len b a) : a ∈ R :=
  (h.cover a).mpr ⟨b, hb, ha⟩

theorem remove (hb : b ∈ B) : Partition (B \ {b}) len (R \ {a | InBlock len b a}) := by
  refine ⟨fun d hd => h.pos d hd.1, fun d hd e he => h.apart d hd.1 e he.1, fun a => ?_⟩
  constructor
  · rintro ⟨ha, hab⟩
    obtain ⟨d, hd, hda⟩ := (h.cover a).mp ha
    exact ⟨d, ⟨hd, fun he => hab (he ▸ hda)⟩, hda⟩
  · rintro ⟨d, ⟨hd, hdb⟩, hda⟩
    exact ⟨h.mem_of_inBlock hd hda, fun hab => hdb (h.apart d hd b hb a hda hab)⟩

/-- A block outside of the region is added to it. -/
theorem insert (hn : 0 < n) (hR : ∀ a, b ≤ a → a < b + n → a ∉ R) :
    Partition (Insert.insert b B) (update len b n) (R ∪ {a | b ≤ a ∧ a < b + n}) := by
  have hnew : ∀ d ∈ B, d ≠ b := by
    rintro d hd rfl
    exact hR d (le_refl d) (by omega) (h.start_mem hd)
  have hin : ∀ a, InBlock (update len b n) b a ↔ b ≤ a ∧ a < b + n := by
    intro a
    unfold InBlock
    rw [update_self]
  have hin' : ∀ d ∈ B, ∀ a, InBlock (update len b n) d a ↔ InBlock len d a := by
    intro d hd a
    unfold InBlock
    rw [update_of_ne (hnew d hd)]
  have hout : ∀ d ∈ B, ∀ a, InBlock len d a → ¬ (b ≤ a ∧ a < b + n) := fun d hd a ha hba =>
    hR a hba.1 hba.2 ((h.cover a).mpr ⟨d, hd, ha⟩)
  refine ⟨?_, ?_, fun a => ?_⟩
  · rintro d (rfl | hd)
    · rwa [update_self]
    · rw [update_of_ne (hnew d hd)]
      exact h.pos d hd
  · rintro d (rfl | hd) e (rfl | he) a hda hea
    · rfl
    · exact absurd ((hin a).mp hda) (hout e he a ((hin' e he a).mp hea))
    · exact absurd ((hin a).mp hea) (hout d hd a ((hin' d hd a).mp hda))
    · exact h.apart d hd e he a ((hin' d hd a).mp hda) ((hin' e he a).mp hea)
  · constructor
    · rintro (ha | ha)
      · obtain ⟨d, hd, hda⟩ := (h.cover a).mp ha
        exact ⟨d, .inr hd, (hin' d hd a).mpr hda⟩
      · exact ⟨b, .inl rfl, (hin a).mpr ha⟩
    · rintro ⟨d, rfl | hd, ha⟩
      · exact .inr ((hin a).mp ha)
      · exact .inl ((h.cover a).mpr ⟨d, hd, (hin' d hd a).mp ha⟩)

/-- A block that ends where another one starts takes it over. -/
theorem join {c : ℕ} (hb : b ∈ B) (hc : c ∈ B) (hbc : b + len b = c) :
    Partition (B \ {c}) (update len b (len b + len c)) R := by
  have hpos := h.pos b hb
  have hmem : b ∈ B \ {c} := ⟨hb, fun he => by rw [Set.mem_singleton_iff] at he; omega⟩
  have hp := ((h.remove hc).remove hmem).insert (b := b) (n := len b + len c) (by omega) ?_
  · rw [Set.insert_sdiff_singleton, Set.insert_eq_of_mem hmem] at hp
    convert hp using 1
    ext a
    have hba := h.mem_of_inBlock hb (a := a)
    have hca := h.mem_of_inBlock hc (a := a)
    simp only [InBlock, Set.mem_union, Set.mem_sdiff, Set.mem_ofPred_eq] at *
    grind
  · rintro a h1 h2 ⟨⟨-, h3⟩, h4⟩
    simp only [InBlock, Set.mem_ofPred_eq] at h3 h4
    omega

/-- A block gives up what lies behind its first `n` addresses. -/
theorem split (hb : b ∈ B) (hn : 0 < n) (hlen : n < len b) :
    Partition (Insert.insert (b + n) B) (update (update len (b + n) (len b - n)) b n) R := by
  have h1 := (h.remove hb).insert (b := b) hn ?_
  · have h2 := h1.insert (b := b + n) (n := len b - n) (by omega) ?_
    · rw [Set.insert_sdiff_singleton, Set.insert_eq_of_mem hb, update_comm (by omega)] at h2
      convert h2 using 1
      ext a
      have hba := h.mem_of_inBlock hb (a := a)
      simp only [InBlock, Set.mem_union, Set.mem_sdiff, Set.mem_ofPred_eq] at *
      grind
    · rintro a ha1 ha2 (⟨-, ha3⟩ | ha3)
      · simp only [InBlock, Set.mem_ofPred_eq] at ha3
        omega
      · simp only [Set.mem_ofPred_eq] at ha3
        omega
  · rintro a ha1 ha2 ⟨-, ha3⟩
    simp only [InBlock, Set.mem_ofPred_eq] at ha3
    omega

/-- Distinct blocks of a region below `n` are not longer than it. -/
theorem sum_le {l : List ℕ} (hl : l.Nodup) (hB : ∀ b ∈ l, b ∈ B) {m : ℕ}
    (hR : ∀ a ∈ R, m ≤ a ∧ a < n) : (l.map len).sum ≤ n - m := by
  have hdisj : (l.toFinset : Set ℕ).PairwiseDisjoint fun b => Finset.Ico b (b + len b) := by
    intro b hb c hc hne
    rw [Function.onFun, disjoint_left]
    intro a hba hca
    refine hne (h.apart b (hB b (List.mem_toFinset.mp hb)) c (hB c (List.mem_toFinset.mp hc)) a ?_ ?_)
    · exact mem_Ico.mp hba
    · exact mem_Ico.mp hca
  have hsub : l.toFinset.biUnion (fun b => Finset.Ico b (b + len b)) ⊆ Finset.Ico m n := by
    intro a ha
    obtain ⟨b, hb, hba⟩ := mem_biUnion.mp ha
    exact mem_Ico.mpr
      (hR a ((h.cover a).mpr ⟨b, hB b (List.mem_toFinset.mp hb), mem_Ico.mp hba⟩))
  calc (l.map len).sum = ∑ b ∈ l.toFinset, len b := (List.sum_toFinset len hl).symm
    _ = ∑ b ∈ l.toFinset, (Finset.Ico b (b + len b)).card := by
      refine sum_congr rfl fun b _ => ?_
      rw [Nat.card_Ico, Nat.add_sub_cancel_left]
    _ = (l.toFinset.biUnion fun b => Finset.Ico b (b + len b)).card := (card_biUnion hdisj).symm
    _ ≤ (Finset.Ico m n).card := card_le_card hsub
    _ = n - m := Nat.card_Ico m n

end

end Partition

end MiniTree.Core
