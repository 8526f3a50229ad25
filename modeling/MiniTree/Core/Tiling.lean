import Mathlib.Data.List.Basic

/-!
# Spans that tile an interval

A span is an offset and a length. `Tiles a spans b`: the spans follow each other without a
gap from `a` to `b`.

**Results.** A tiling stays in its bounds, its spans do not overlap, and every position is
in one of them (`Tiles.bounds`, `Tiles.apart`, `Tiles.cover`).
-/

namespace MiniTree.Core

/-- `(offset, length)` -/
abbrev Span := Nat × Nat

def Span.stop (s : Span) : Nat := s.1 + s.2

/-- One of the two ends before the other begins. -/
def Span.Apart (s t : Span) : Prop := s.stop ≤ t.1 ∨ t.stop ≤ s.1

theorem Span.Apart.symm {s t : Span} (h : s.Apart t) : t.Apart s :=
  Or.symm h

def Tiles : Nat → List Span → Nat → Prop
  | a, [], b => a = b
  | a, s :: spans, b => s.1 = a ∧ Tiles s.stop spans b

section
variable {a b : Nat} {spans : List Span} (h : Tiles a spans b)
include h

theorem Tiles.le : a ≤ b := by
  induction spans generalizing a with
  | nil => exact Nat.le_of_eq h
  | cons s spans ih =>
    obtain ⟨rfl, h⟩ := h
    exact Nat.le_trans (Nat.le_add_right ..) (ih h)

theorem Tiles.bounds : ∀ s ∈ spans, a ≤ s.1 ∧ s.stop ≤ b := by
  induction spans generalizing a with
  | nil => simp
  | cons s spans ih =>
    obtain ⟨rfl, h⟩ := h
    intro t ht
    rcases List.mem_cons.mp ht with rfl | ht
    · exact ⟨Nat.le_refl _, h.le⟩
    · exact ⟨Nat.le_trans (Nat.le_add_right ..) (ih h t ht).1, (ih h t ht).2⟩

theorem Tiles.pairwise : spans.Pairwise fun s t => s.stop ≤ t.1 := by
  induction spans generalizing a with
  | nil => exact .nil
  | cons s spans ih =>
    obtain ⟨rfl, h⟩ := h
    exact .cons (fun t ht => (h.bounds t ht).1) (ih h)

theorem Tiles.apart : spans.Pairwise Span.Apart := h.pairwise.imp .inl

end

theorem Tiles.cover {a b i : Nat} {spans : List Span} (h : Tiles a spans b) (ha : a ≤ i)
    (hb : i < b) : ∃ s ∈ spans, s.1 ≤ i ∧ i < s.stop := by
  induction spans generalizing a with
  | nil =>
    have : a = b := h
    omega
  | cons s spans ih =>
    obtain ⟨rfl, h⟩ := h
    by_cases hi : i < s.stop
    · exact ⟨s, List.mem_cons_self .., ha, hi⟩
    · obtain ⟨t, ht, hti⟩ := ih h (Nat.le_of_not_lt hi)
      exact ⟨t, List.mem_cons_of_mem _ ht, hti⟩

end MiniTree.Core
