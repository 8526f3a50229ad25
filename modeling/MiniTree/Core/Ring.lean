import Mathlib.Data.List.Nodup
import Mathlib.Logic.Function.Basic
import Mathlib.Order.Lattice
import Mathlib.Data.List.Perm.Basic

/-!
# Rings of nodes

The list view of a circular doubly linked list with a sentinel: the list is
what a walk from the sentinel's `next` meets before it is back at the sentinel.
`insertBefore` is a walk that stops at the first node a test picks and links
the new node in front of it, `after` is a node's `next` pointer (`none` when
that is the sentinel), and `CyclicSucc` is the successor once the sentinel is
skipped.
-/

namespace MiniTree.Core.Ring

open Function List Option

variable {α : Type*} {l : List α} {a b : α} {stop : α → Bool}

/-- Link `a` in front of the first node `stop` picks, at the tail if none. -/
def insertBefore (stop : α → Bool) (a : α) : List α → List α
  | [] => [a]
  | x :: xs => if stop x then a :: x :: xs else x :: insertBefore stop a xs

theorem insertBefore_perm (stop : α → Bool) (a : α) (l : List α) :
    (insertBefore stop a l).Perm (a :: l) := by
  induction l with
  | nil => exact .refl _
  | cons x xs ih =>
    unfold insertBefore
    split
    · exact .refl _
    · exact (ih.cons x).trans (.swap a x xs)

@[simp] theorem mem_insertBefore : b ∈ insertBefore stop a l ↔ b = a ∨ b ∈ l := by
  rw [(insertBefore_perm stop a l).mem_iff, mem_cons]

@[simp] theorem insertBefore_ne_nil (stop : α → Bool) (a : α) (l : List α) :
    insertBefore stop a l ≠ [] :=
  ne_nil_of_mem (mem_insertBefore.mpr (.inl rfl))

/-- A walk that stops at the first node strictly above `a` keeps a list sorted. -/
theorem pairwise_insertBefore {r : α → α → Prop} {a : α}
    (hstop : ∀ x, stop x = true → r a x) (hpass : ∀ x, stop x = false → r x a)
    (htrans : ∀ x y, r a x → r x y → r a y) (h : l.Pairwise r) :
    (insertBefore stop a l).Pairwise r := by
  induction l with
  | nil => exact pairwise_singleton _ _
  | cons x xs ih =>
    obtain ⟨hx, hxs⟩ := pairwise_cons.mp h
    unfold insertBefore
    split
    · rename_i hs
      refine pairwise_cons.mpr ⟨fun y hy => ?_, h⟩
      rcases mem_cons.mp hy with rfl | hy
      · exact hstop _ hs
      · exact htrans _ _ (hstop _ hs) (hx y hy)
    · rename_i hs
      refine pairwise_cons.mpr ⟨fun y hy => ?_, ih hxs⟩
      rcases mem_insertBefore.mp hy with rfl | hy
      · exact hpass _ (by simpa using hs)
      · exact hx y hy

/-- A scan of a sorted list that stops at the first failure of a test leaves nothing that
passes it exactly when the test never passes above a failure. -/
theorem forall_dropWhile_iff {κ : Type*} [LinearOrder κ] {k : α → κ} {p : α → Bool}
    (hk : ∀ a b, k a = k b → p a = p b) (h : l.Pairwise fun a b => k a ≤ k b) :
    (∀ a ∈ l.dropWhile p, p a = false) ↔ ∀ a ∈ l, ∀ b ∈ l, k a < k b → p b = true → p a = true := by
  induction l with
  | nil => simp
  | cons x xs ih =>
    obtain ⟨hx, hxs⟩ := pairwise_cons.mp h
    cases hp : p x with
    | true =>
      rw [dropWhile_cons_of_pos hp, ih hxs]
      constructor
      · intro hall a ha b hb hlt hpb
        rcases mem_cons.mp ha with rfl | ha'
        · exact hp
        · rcases mem_cons.mp hb with rfl | hb'
          · exact absurd (hx a ha') (not_le_of_gt hlt)
          · exact hall a ha' b hb' hlt hpb
      · intro hall a ha b hb
        exact hall a (mem_cons_of_mem _ ha) b (mem_cons_of_mem _ hb)
    | false =>
      rw [dropWhile_cons_of_neg (by simp [hp])]
      constructor
      · intro hall a _ b hb _ hpb
        rw [hall b hb] at hpb
        cases hpb
      · intro hall b hb
        rcases mem_cons.mp hb with rfl | hb'
        · exact hp
        rcases lt_or_eq_of_le (hx b hb') with hlt | heq
        · by_contra hpb
          have := hall x mem_cons_self b hb hlt (by simpa using hpb)
          rw [hp] at this
          cases this
        · rw [← hk _ _ heq]
          exact hp

/-- In a family of lists one of them gains an element. -/
theorem flatMap_update_perm {ι : Type*} [DecidableEq ι] {f : ι → List α} {is : List ι} {i : ι}
    {a : α} (hn : is.Nodup) (hi : i ∈ is) (hl : l.Perm (a :: f i)) :
    (is.flatMap (update f i l)).Perm (a :: is.flatMap f) := by
  induction is with
  | nil => cases hi
  | cons j js ih =>
    obtain ⟨hj, hjs⟩ := nodup_cons.mp hn
    rw [flatMap_cons, flatMap_cons]
    by_cases hij : j = i
    · subst hij
      have hrest : js.flatMap (update f j l) = js.flatMap f := by
        refine flatMap_congr fun k hk => update_of_ne ?_ _ _
        rintro rfl
        exact hj hk
      rw [hrest, update_self]
      exact hl.append_right _
    · rw [update_of_ne hij]
      have hi' : i ∈ js := (mem_cons.mp hi).resolve_left (Ne.symm hij)
      exact ((ih hjs hi').append_left _).trans perm_middle

variable [DecidableEq α]

/-- The node behind the first occurrence of `a`; `none` stands for the sentinel. -/
def after (a : α) : List α → Option α
  | [] => none
  | x :: xs => if x = a then xs.head? else after a xs

theorem after_append {a : α} {l₁ l₂ : List α} (h : a ∉ l₁) : after a (l₁ ++ a :: l₂) = l₂.head? := by
  induction l₁ with
  | nil => simp [after]
  | cons x xs ih =>
    have hx : x ≠ a := fun e => h (by simp [e])
    simp only [cons_append, after, hx, if_false]
    exact ih fun hm => h (mem_cons_of_mem _ hm)

theorem after_mem (h : after a l = some b) : b ∈ l := by
  induction l with
  | nil => cases h
  | cons x xs ih =>
    simp only [after] at h
    split at h
    · exact mem_cons_of_mem _ (mem_of_mem_head? h)
    · exact mem_cons_of_mem _ (ih h)

theorem after_ne (hn : l.Nodup) (h : after a l = some b) : b ≠ a := by
  induction l with
  | nil => cases h
  | cons x xs ih =>
    obtain ⟨hx, hn'⟩ := nodup_cons.mp hn
    simp only [after] at h
    split at h
    · rename_i he
      rintro rfl
      exact hx (he ▸ mem_of_mem_head? h)
    · exact ih hn' h

/-- `b` follows `a` on the ring, the sentinel skipped. -/
def CyclicSucc (l : List α) (a b : α) : Prop :=
  ∃ l₁ l₂, l = l₁ ++ a :: l₂ ∧ (l₂ ++ (l₁ ++ [a])).head? = some b

/-- The two ways a walk computes the cyclic successor: the `next` node, or the
head of the ring when `next` is the sentinel. -/
theorem cyclicSucc_iff (hn : l.Nodup) (ha : a ∈ l) :
    CyclicSucc l a b ↔ ((after a l).or l.head?) = some b := by
  obtain ⟨l1, l2, rfl⟩ := append_of_mem ha
  have h1 : a ∉ l1 := fun h =>
    (nodup_append.mp hn).2.2 a h a (by simp) rfl
  have hkey : ((after a (l1 ++ a :: l2)).or (l1 ++ a :: l2).head?) = (l2 ++ (l1 ++ [a])).head? := by
    rw [after_append h1]
    cases l2 <;> cases l1 <;> simp
  rw [hkey]
  constructor
  · rintro ⟨m1, m2, he, hb⟩
    have h2 : a ∉ l2 := (nodup_cons.mp (nodup_append.mp hn).2.1).1
    obtain ⟨rfl, -, rfl⟩ := (append_cons_inj_of_notMem h1 h2).mp he
    exact hb
  · intro hb
    exact ⟨l1, l2, rfl, hb⟩

/-- On a ring without repetitions the head follows `a` only when `a` is last. -/
theorem cyclicSucc_head_iff (hn : l.Nodup) (ha : a ∈ l)
    (hb : l.head? = some b) : CyclicSucc l a b ↔ l.getLast? = some a := by
  rw [cyclicSucc_iff hn ha]
  obtain ⟨l1, l2, rfl⟩ := append_of_mem ha
  have h1 : a ∉ l1 := fun h =>
    (nodup_append.mp hn).2.2 a h a (by simp) rfl
  rw [after_append h1]
  cases l2 with
  | nil => simpa using hb
  | cons x xs =>
    have hx : x ∉ l1 ∧ x ≠ a ∧ a ∉ x :: xs := by
      have hd := nodup_append.mp hn
      refine ⟨fun h => hd.2.2 x h x (by simp) rfl, ?_, (nodup_cons.mp hd.2.1).1⟩
      rintro rfl
      exact (nodup_cons.mp hd.2.1).1 (by simp)
    constructor
    · intro h
      have hxb : x = b := by simpa using h
      subst hxb
      cases l1 with
      | nil =>
        simp only [nil_append, List.head?_cons, some.injEq] at hb
        exact absurd hb.symm hx.2.1
      | cons y ys =>
        simp only [cons_append, List.head?_cons, some.injEq] at hb
        exact absurd (by simp [hb]) hx.1
    · intro h
      have : a ∈ x :: xs := by
        have hl : (x :: xs).getLast? = some a := by
          simpa [List.getLast?_append, List.getLast?_cons_cons] using h
        exact mem_of_getLast? hl
      exact absurd this hx.2.2

end MiniTree.Core.Ring
