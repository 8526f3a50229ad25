import Mathlib.Algebra.Order.Group.Multiset
import Mathlib.Data.Multiset.UnionInter

/-!
# Ordered forests merged by name

A forest of records in which a child is found by its key, the first of that key counting, and two
forests are merged by adding the records of one to the other: a child whose key is there is merged
into it, a child whose key is new is moved to the end. A node is a record with its children, and a
path of keys leads to a node below it.

**Results.** `infoAt_merge`: what a merge shows at each path, when no two children of one node of
the source have one key. `infoAt_adjustAt_append` and `infoAt_adjustAt_of_not_prefix`: what changing
one node changes. `tags_merge_le` and `tags_adjustAt_le`: nothing is duplicated. `modify_eq_adjustAt`:
changing a node that is known by a mark no other node has is changing it at its path.
-/

namespace MiniTree

open List Option
open Multiset (cons_add mem_add mem_of_le nodup_add cons_le_cons le_cons_self)

inductive Forest (α : Type*) where
  | nil
  | cons (a : α) (children rest : Forest α)
  deriving DecidableEq

namespace Forest

variable {α κ τ : Type*} [DecidableEq κ] (key : α → κ)

/-- The first node with that key. -/
def find (k : κ) : Forest α → Option (α × Forest α)
  | nil => none
  | cons a c rest => if key a = k then some (a, c) else find k rest

def snoc : Forest α → α × Forest α → Forest α
  | nil, n => cons n.1 n.2 nil
  | cons a c rest, n => cons a c (snoc rest n)

/-- Change the first node with that key. -/
def adjust (k : κ) (g : α × Forest α → α × Forest α) : Forest α → Forest α
  | nil => nil
  | cons a c rest =>
    if key a = k then cons (g (a, c)).1 (g (a, c)).2 rest else cons a c (adjust k g rest)

/-- Merge the first forest into the second. -/
def merge (join : α → α → α) : Forest α → Forest α → Forest α
  | nil, t => t
  | cons a c rest, t =>
    merge join rest
      (if (t.find key (key a)).isSome then t.adjust key (key a) fun n => (join n.1 a, merge join c n.2)
       else t.snoc (a, c))

/-- Merge the first node into the second. -/
def mergeNode (join : α → α → α) (src target : α × Forest α) : α × Forest α :=
  (join target.1 src.1, merge key join src.2 target.2)

/-- The node at a path below a node. -/
def sub : List κ → α × Forest α → Option (α × Forest α)
  | [], n => some n
  | k :: p, n => (n.2.find key k).bind (sub p)

def infoAt (p : List κ) (n : α × Forest α) : Option α := (sub key p n).map (·.1)

def adjustAt (g : α × Forest α → α × Forest α) : List κ → α × Forest α → α × Forest α
  | [], n => g n
  | k :: p, n => (n.1, n.2.adjust key k (adjustAt g p))

/-- What the nodes are marked with. -/
def tags (tag : α → τ) : Forest α → Multiset τ
  | nil => 0
  | cons a c rest => tag a ::ₘ (tags tag c + tags tag rest)

def tops : Forest α → List (α × Forest α)
  | nil => []
  | cons a c rest => (a, c) :: tops rest

/-- Leave out the nodes at the top for which the test holds. -/
def removeTop (test : α → Bool) : Forest α → Forest α
  | nil => nil
  | cons a c rest => if test a then removeTop test rest else cons a c (removeTop test rest)

/-- The first node, in preorder, for which the test holds. -/
def lookup (test : α → Bool) : Forest α → Option (α × Forest α)
  | nil => none
  | cons a c rest =>
    if test a then some (a, c) else (lookup test c).or (lookup test rest)

/-- Change the first node, in preorder, for which the test holds. -/
def modify (test : α → Bool) (g : α × Forest α → α × Forest α) : Forest α → Forest α
  | nil => nil
  | cons a c rest =>
    if test a then cons (g (a, c)).1 (g (a, c)).2 rest
    else cons a (modify test g c) (modify test g rest)

/-- No two children of one node have one key. -/
def Distinct : Forest α → Prop
  | nil => True
  | cons a c rest => find key (key a) rest = none ∧ Distinct c ∧ Distinct rest

/-! ## Finding -/

section Find

variable {key} {join : α → α → α} {n : α × Forest α} {f : Forest α}

theorem find_snoc (k : κ) (f : Forest α) (n : α × Forest α) :
    (f.snoc n).find key k = (f.find key k).or (if key n.1 = k then some n else none) := by
  induction f with
  | nil => rfl
  | cons a c rest _ ihr =>
    grind [snoc, find]

theorem find_adjust {g : α × Forest α → α × Forest α} (hg : ∀ n, key (g n).1 = key n.1) (k k' : κ)
    (f : Forest α) : (f.adjust key k g).find key k' =
      if k' = k then (f.find key k).map g else f.find key k' := by
  induction f with
  | nil => simp [adjust, find]
  | cons a c rest _ ihr =>
    have hga := hg (a, c)
    grind [adjust, find]

theorem adjust_congr {k : κ} {g h : α × Forest α → α × Forest α}
    (hf : f.find key k = some n) (hn : g n = h n) : f.adjust key k g = f.adjust key k h := by
  induction f with
  | nil => rfl
  | cons a c rest _ ihr =>
    grind [find, adjust]

theorem find_mergeOne (hj : ∀ a b, key (join a b) = key a) (a : α)
    (c t : Forest α) (k : κ) : (if (t.find key (key a)).isSome then
        t.adjust key (key a) fun n => (join n.1 a, merge key join c n.2)
      else t.snoc (a, c)).find key k =
      if key a = k then some (((t.find key k).map (mergeNode key join (a, c))).getD (a, c))
      else t.find key k := by
  cases hf : t.find key (key a) with
  | some n =>
    rw [isSome_some, if_pos rfl, find_adjust fun n => hj n.1 a]
    grind [mergeNode]
  | none =>
    rw [isSome_none, if_neg Bool.false_ne_true, find_snoc]
    grind

theorem find_merge (hj : ∀ a b, key (join a b) = key a) (k : κ)
    (s t : Forest α) (hs : s.Distinct key) : (merge key join s t).find key k =
      (t.find key k).merge (fun x y => mergeNode key join y x) (s.find key k) := by
  induction s generalizing t with
  | nil =>
    rw [merge, find]
    cases t.find key k <;> rfl
  | cons a c rest _ ihr =>
    rw [merge, ihr _ hs.2.2, find_mergeOne hj, find]
    split
    · rename_i hk
      rw [← hk, hs.1]
      cases t.find key (key a) <;> rfl
    · rfl

theorem Distinct.of_find {k : κ} (hf : f.Distinct key)
    (h : f.find key k = some n) : n.2.Distinct key := by
  induction f with
  | nil => exact absurd h (by simp [find])
  | cons a c rest _ ihr =>
    rw [find] at h
    split at h
    · rw [← some_inj.mp h]
      exact hf.2.1
    · exact ihr hf.2.2 h

end Find

/-! ## Paths -/

section Paths

variable {key}

theorem infoAt_cons (k : κ) (p : List κ) (n : α × Forest α) :
    infoAt key (k :: p) n = (n.2.find key k).bind (infoAt key p) := by
  unfold infoAt
  rw [sub, Option.map_bind]
  rfl

theorem infoAt_merge {join : α → α → α} (hj : ∀ a b, key (join a b) = key a) (p : List κ)
    (s t : α × Forest α) (hs : s.2.Distinct key) :
    infoAt key p (mergeNode key join s t) = (infoAt key p t).merge join (infoAt key p s) := by
  induction p generalizing s t with
  | nil => rfl
  | cons k p ih =>
    rw [infoAt_cons, infoAt_cons, infoAt_cons, mergeNode, find_merge hj k s.2 t.2 hs]
    cases ht : t.2.find key k with
    | none =>
      rw [merge_none_left, bind_none, merge_none_left]
    | some y =>
      cases hsk : s.2.find key k with
      | none => rw [merge_none_right, bind_none, merge_none_right]
      | some x => exact ih x y (hs.of_find hsk)

theorem sub_append (p q : List κ) (n : α × Forest α) :
    sub key (p ++ q) n = (sub key p n).bind (sub key q) := by
  induction p generalizing n with
  | nil => rfl
  | cons k p ih =>
    rw [cons_append, sub, sub, bind_assoc]
    exact congrArg _ (funext ih)

variable {g : α × Forest α → α × Forest α}

section
variable (hg : ∀ n, key (g n).1 = key n.1)
include hg

theorem key_adjustAt (p : List κ) (n : α × Forest α) : key (adjustAt key g p n).1 = key n.1 := by
  cases p with
  | nil => exact hg n
  | cons k p => rfl

theorem infoAt_adjustAt_append (b q : List κ) (n : α × Forest α) :
    infoAt key (b ++ q) (adjustAt key g b n) = (sub key b n).bind fun m => infoAt key q (g m) := by
  induction b generalizing n with
  | nil => rfl
  | cons k b ih =>
    rw [cons_append, infoAt_cons, adjustAt, find_adjust (key_adjustAt hg b), if_pos rfl, sub,
      bind_map, bind_assoc]
    exact congrArg _ (funext ih)

theorem infoAt_adjustAt_of_not_prefix {b p : List κ} (hp : ¬ b <+: p) (n : α × Forest α) :
    infoAt key p (adjustAt key g b n) = infoAt key p n := by
  induction b generalizing p n with
  | nil => exact absurd nil_prefix hp
  | cons k b ih =>
    cases p with
    | nil => rfl
    | cons k' p =>
      rw [infoAt_cons, infoAt_cons, adjustAt, find_adjust (key_adjustAt hg b)]
      split
      · rename_i hk
        rw [hk, bind_map]
        refine congrArg _ (funext fun m => ih (fun h => hp ?_) m)
        exact hk ▸ cons_prefix_cons.mpr ⟨rfl, h⟩
      · rfl

end

end Paths

/-! ## Marks -/

section Tags

variable {key} {tag : α → τ} {n : α × Forest α} {g : α × Forest α → α × Forest α} {f : Forest α}
  {x : Multiset τ}

theorem tags_snoc (f : Forest α) (n : α × Forest α) :
    (f.snoc n).tags tag = f.tags tag + tag n.1 ::ₘ n.2.tags tag := by
  induction f with
  | nil => simp [snoc, tags]
  | cons a c rest _ ihr => rw [snoc, tags, tags, ihr, cons_add, add_assoc]

theorem tags_adjust_le {k : κ}
    (hg : ∀ n, tag (g n).1 ::ₘ (g n).2.tags tag ≤ tag n.1 ::ₘ n.2.tags tag + x) (f : Forest α) :
    (f.adjust key k g).tags tag ≤ f.tags tag + x := by
  induction f with
  | nil => exact Multiset.zero_le _
  | cons a c rest _ ihr =>
    rw [adjust]
    split
    · calc
        tag (g (a, c)).1 ::ₘ ((g (a, c)).2.tags tag + rest.tags tag) =
            tag (g (a, c)).1 ::ₘ (g (a, c)).2.tags tag + rest.tags tag := (cons_add ..).symm
        _ ≤ tag a ::ₘ c.tags tag + x + rest.tags tag := Multiset.add_le_add_right (hg (a, c))
        _ = tag a ::ₘ (c.tags tag + rest.tags tag) + x := by rw [add_right_comm, cons_add]
    · rw [tags, tags, cons_add, add_assoc]
      exact cons_le_cons _ (Multiset.add_le_add_left ihr)

theorem tags_merge_le {join : α → α → α} (hj : ∀ a b, tag (join a b) = tag a) (s t : Forest α) :
    (merge key join s t).tags tag ≤ t.tags tag + s.tags tag := by
  induction s generalizing t with
  | nil => simp [merge, tags]
  | cons a c rest ihc ihr =>
    rw [merge]
    refine (ihr _).trans ?_
    have hone : (if (t.find key (key a)).isSome then
          t.adjust key (key a) fun n => (join n.1 a, merge key join c n.2)
        else t.snoc (a, c)).tags tag ≤ t.tags tag + tag a ::ₘ c.tags tag := by
      split
      · refine tags_adjust_le (fun n => ?_) t
        rw [hj, cons_add]
        refine cons_le_cons _ ((ihc n.2).trans ?_)
        exact Multiset.add_le_add_left (le_cons_self _ _)
      · rw [tags_snoc]
    calc
      _ ≤ t.tags tag + tag a ::ₘ c.tags tag + rest.tags tag := Multiset.add_le_add_right hone
      _ = t.tags tag + (cons a c rest).tags tag := by rw [tags, add_assoc, cons_add]

theorem tags_adjustAt_le
    (hg : ∀ n, tag (g n).1 ::ₘ (g n).2.tags tag ≤ tag n.1 ::ₘ n.2.tags tag + x) (p : List κ)
    (n : α × Forest α) : tag (adjustAt key g p n).1 ::ₘ (adjustAt key g p n).2.tags tag ≤
      tag n.1 ::ₘ n.2.tags tag + x := by
  induction p generalizing n with
  | nil => exact hg n
  | cons k p ih =>
    rw [adjustAt, cons_add]
    exact cons_le_cons _ (tags_adjust_le ih n.2)

theorem tag_mem_of_find {k : κ} (h : f.find key k = some n) :
    tag n.1 ::ₘ n.2.tags tag ≤ f.tags tag := by
  induction f with
  | nil => exact absurd h (by simp [find])
  | cons a c rest _ ihr =>
    rw [find] at h
    rw [tags]
    split at h
    · rw [← some_inj.mp h, ← cons_add]
      exact Multiset.le_add_right _ _
    · refine (ihr h).trans ((Multiset.le_add_left _ _).trans (le_cons_self _ _))

theorem tag_mem_of_sub {p : List κ} {n m : α × Forest α} (h : sub key p n = some m) :
    tag m.1 ∈ tag n.1 ::ₘ n.2.tags tag := by
  induction p generalizing n with
  | nil =>
    rw [some_inj.mp h]
    exact Multiset.mem_cons_self _ _
  | cons k p ih =>
    rw [sub, bind_eq_some_iff] at h
    obtain ⟨y, hy, hm⟩ := h
    exact Multiset.mem_cons_of_mem (mem_of_le (tag_mem_of_find hy) (ih hm))

theorem tags_map {σ : Type*} (φ : τ → σ) (f : Forest α) :
    (f.tags tag).map φ = f.tags fun a => φ (tag a) := by
  induction f with
  | nil => rfl
  | cons a c rest ihc ihr =>
    rw [tags, tags, Multiset.map_cons, Multiset.map_add, ihc, ihr]

theorem tags_le_of_mem_tops (h : n ∈ f.tops) : tag n.1 ::ₘ n.2.tags tag ≤ f.tags tag := by
  induction f with
  | nil => exact absurd h not_mem_nil
  | cons a c rest _ ihr =>
    rw [tags]
    rcases mem_cons.mp h with h | h
    · rw [h, ← cons_add]
      exact Multiset.le_add_right _ _
    · exact (ihr h).trans ((Multiset.le_add_left _ _).trans (le_cons_self _ _))

theorem tag_mem_of_mem_tops (h : n ∈ f.tops) : tag n.1 ∈ f.tags tag :=
  mem_of_le (tags_le_of_mem_tops h) (Multiset.mem_cons_self _ _)

end Tags

/-! ## Changing a marked node -/

section Modify

variable {key} {tag : α → τ} [DecidableEq τ] {g : α × Forest α → α × Forest α} {f : Forest α}

theorem modify_of_notMem {x : τ} (hx : x ∉ f.tags tag) : f.modify (tag · = x) g = f := by
  induction f with
  | nil => rfl
  | cons a c rest ihc ihr =>
    simp only [tags, Multiset.mem_cons, mem_add, not_or] at hx
    rw [modify, if_neg (by simpa using fun h => hx.1 h.symm), ihc hx.2.1, ihr hx.2.2]

/-- The change at the first node of a key, when the marked node is that node or is below it. -/
theorem modify_eq_adjust {x : τ} {g h : α × Forest α → α × Forest α} {k : κ} {n : α × Forest α}
    (hf : f.find key k = some n) (hnd : (f.tags tag).Nodup) (hx : x ∈ tag n.1 ::ₘ n.2.tags tag)
    (hn : h n = if tag n.1 = x then g n else (n.1, n.2.modify (tag · = x) g)) :
    f.modify (tag · = x) g = f.adjust key k h := by
  induction f with
  | nil => exact absurd hf (by simp [find])
  | cons a c rest _ ihr =>
    rw [tags, Multiset.nodup_cons, nodup_add] at hnd
    rw [find] at hf
    rw [adjust]
    split at hf
    · rename_i hk
      rw [← some_inj.mp hf] at hn hx
      rw [if_pos hk, hn, modify]
      by_cases hax : tag a = x
      · rw [if_pos (decide_eq_true hax), if_pos hax]
      · have hxc : x ∈ c.tags tag := (Multiset.mem_cons.mp hx).resolve_left fun h => hax h.symm
        have hxr : x ∉ rest.tags tag := Multiset.disjoint_left.mp hnd.2.2.2 hxc
        rw [if_neg (by simpa using hax), if_neg hax, modify_of_notMem hxr]
    · rename_i hk
      have hxr : x ∈ rest.tags tag := mem_of_le (tag_mem_of_find hf) hx
      have hax : tag a ≠ x := by
        intro h
        exact hnd.1 (mem_add.mpr (.inr (h ▸ hxr)))
      have hxc : x ∉ c.tags tag := Multiset.disjoint_right.mp hnd.2.2.2 hxr
      rw [modify, if_neg (by simpa using hax), if_neg hk, modify_of_notMem hxc, ihr hf hnd.2.2.1]

theorem modify_eq_adjustAt {k : κ} {p : List κ}
    {n m : α × Forest α} (hm : sub key (k :: p) n = some m) (hnd : (n.2.tags tag).Nodup) :
    (n.1, n.2.modify (tag · = tag m.1) g) = adjustAt key g (k :: p) n := by
  induction p generalizing k n with
  | nil =>
    rw [sub, bind_eq_some_iff] at hm
    obtain ⟨y, hy, hym⟩ := hm
    rw [adjustAt]
    refine congrArg _ (modify_eq_adjust hy hnd ?_ ?_)
    · rw [some_inj.mp hym]
      exact Multiset.mem_cons_self _ _
    · rw [some_inj.mp hym, if_pos rfl]
      rfl
  | cons k' p ih =>
    rw [sub, bind_eq_some_iff] at hm
    obtain ⟨y, hy, hym⟩ := hm
    have hle : tag y.1 ::ₘ y.2.tags tag ≤ n.2.tags tag := tag_mem_of_find hy
    have hndy := Multiset.nodup_cons.mp (Multiset.nodup_of_le hle hnd)
    have hmem : tag m.1 ∈ y.2.tags tag := by
      rw [sub, bind_eq_some_iff] at hym
      obtain ⟨z, hz, hzm⟩ := hym
      exact mem_of_le (tag_mem_of_find hz) (tag_mem_of_sub hzm)
    rw [adjustAt]
    refine congrArg _ (modify_eq_adjust hy hnd (Multiset.mem_cons_of_mem hmem) ?_)
    have hne : tag y.1 ≠ tag m.1 := fun h => hndy.1 (h ▸ hmem)
    rw [if_neg hne]
    exact (ih hym hndy.2).symm

end Modify

/-! ## The nodes at the top -/

section Tops

variable {key} {tag : α → τ}

theorem tops_snoc (f : Forest α) (n : α × Forest α) : (f.snoc n).tops = f.tops ++ [n] := by
  induction f with
  | nil => rfl
  | cons a c rest _ ihr => rw [snoc, tops, tops, ihr, cons_append]

variable {f : Forest α} {g : α × Forest α → α × Forest α} {n : α × Forest α} {pick : κ → Bool}
  {test : α → Bool} {k : κ} {x : τ}

theorem nodup_tops (hnd : (f.tags tag).Nodup) : (f.tops.map fun n => tag n.1).Nodup := by
  induction f with
  | nil => exact nodup_nil
  | cons a c rest _ ihr =>
    rw [tags, Multiset.nodup_cons, nodup_add] at hnd
    rw [tops, map_cons, nodup_cons]
    refine ⟨fun h => hnd.1 (mem_add.mpr (.inr ?_)), ihr hnd.2.2.1⟩
    obtain ⟨n, hn, he⟩ := mem_map.mp h
    exact he ▸ tag_mem_of_mem_tops hn

/-- The nodes at the top that a key picks out, when the changed key is not picked. -/
theorem filter_tops_adjust (hk : pick k = false) (hg : ∀ n, key (g n).1 = key n.1) (f : Forest α) :
    (f.adjust key k g).tops.filter (fun n => pick (key n.1)) =
      f.tops.filter fun n => pick (key n.1) := by
  induction f with
  | nil => rfl
  | cons a c rest _ ihr =>
    rw [adjust]
    split
    · rename_i ha
      have hpa : pick (key a) = false := ha ▸ hk
      rw [tops, tops, filter_cons_of_neg (by simp [hg, hpa]), filter_cons_of_neg (by simp [hpa])]
    · rw [tops, tops, filter_cons, filter_cons, ihr]

theorem filter_tops_merge {join : α → α → α} (hj : ∀ a b, key (join a b) = key a)
    (s t : Forest α) (hs : ∀ n ∈ s.tops, pick (key n.1) = false) :
    (merge key join s t).tops.filter (fun n => pick (key n.1)) =
      t.tops.filter fun n => pick (key n.1) := by
  induction s generalizing t with
  | nil => rfl
  | cons a c rest _ ihr =>
    have ha : pick (key a) = false := hs (a, c) mem_cons_self
    rw [merge, ihr _ fun n hn => hs n (mem_cons_of_mem _ hn)]
    split
    · exact filter_tops_adjust ha (fun n => hj n.1 a) t
    · rw [tops_snoc, filter_append, filter_cons_of_neg (by simp [ha]), filter_nil, append_nil]

theorem tops_removeTop (test : α → Bool) (f : Forest α) :
    (f.removeTop test).tops = f.tops.filter fun n => !test n.1 := by
  induction f with
  | nil => rfl
  | cons a c rest _ ihr =>
    rw [removeTop, tops, filter_cons]
    cases test a with
    | true => exact ihr
    | false => exact congrArg _ ihr

theorem find_removeTop
    (h : ∀ n ∈ f.tops, test n.1 → key n.1 ≠ k) : (f.removeTop test).find key k = f.find key k := by
  induction f with
  | nil => rfl
  | cons a c rest _ ihr =>
    have hr := ihr fun n hn => h n (mem_cons_of_mem _ hn)
    have ha := h (a, c) mem_cons_self
    grind [removeTop, find]

theorem removeTop_adjust
    (h : ∀ n ∈ f.tops, test n.1 → key n.1 ≠ k) (hg : ∀ n, test (g n).1 = test n.1) :
    (f.adjust key k g).removeTop test = (f.removeTop test).adjust key k g := by
  induction f with
  | nil => rfl
  | cons a c rest _ ihr =>
    have hr := ihr fun n hn => h n (mem_cons_of_mem _ hn)
    have ha := h (a, c) mem_cons_self
    have hga := hg (a, c)
    grind [adjust, removeTop]

variable [DecidableEq τ]

theorem lookup_of_notMem (hx : x ∉ f.tags tag) : f.lookup (tag · = x) = none := by
  induction f with
  | nil => rfl
  | cons a c rest ihc ihr =>
    simp only [tags, Multiset.mem_cons, mem_add, not_or] at hx
    rw [lookup, if_neg (by simpa using fun h => hx.1 h.symm), ihc hx.2.1, ihr hx.2.2]
    rfl

theorem lookup_isSome (hx : x ∈ f.tags tag) : (f.lookup (tag · = x)).isSome := by
  induction f with
  | nil => exact absurd hx (Multiset.notMem_zero _)
  | cons a c rest ihc ihr =>
    simp only [tags, Multiset.mem_cons, mem_add] at hx
    grind [lookup, isSome_or]

theorem lookup_of_mem_tops (hn : n ∈ f.tops)
    (hnd : (f.tags tag).Nodup) : f.lookup (tag · = tag n.1) = some n := by
  induction f with
  | nil => exact absurd hn not_mem_nil
  | cons a c rest _ ihr =>
    rw [tags, Multiset.nodup_cons, nodup_add] at hnd
    rw [lookup]
    rcases mem_cons.mp hn with rfl | hn
    · rw [if_pos (decide_eq_true rfl)]
    have hmem : tag n.1 ∈ rest.tags tag := tag_mem_of_mem_tops hn
    have ha : tag a ≠ tag n.1 := fun h => hnd.1 (mem_add.mpr (.inr (h ▸ hmem)))
    rw [if_neg (by simpa using ha),
      lookup_of_notMem (Multiset.disjoint_right.mp hnd.2.2.2 hmem), none_or, ihr hn hnd.2.2.1]

theorem removeTop_of_notMem (hx : x ∉ f.tags tag) : f.removeTop (tag · = x) = f := by
  induction f with
  | nil => rfl
  | cons a c rest _ ihr =>
    simp only [tags, Multiset.mem_cons, mem_add, not_or] at hx
    rw [removeTop, if_neg (by simpa using fun h => hx.1 h.symm), ihr hx.2.2]

/-- A node at the top, and all below it, are what is left out with it. -/
theorem tags_removeTop {σ : Type*} {tag' : α → σ} (hn : n ∈ f.tops) (hnd : (f.tags tag).Nodup) :
    (f.removeTop (tag · = tag n.1)).tags tag' + tag' n.1 ::ₘ n.2.tags tag' = f.tags tag' := by
  induction f with
  | nil => exact absurd hn not_mem_nil
  | cons a c rest _ ihr =>
    rw [tags, Multiset.nodup_cons, nodup_add] at hnd
    rw [removeTop]
    rcases mem_cons.mp hn with rfl | hn
    · rw [if_pos (decide_eq_true rfl), removeTop_of_notMem, tags, add_comm, cons_add]
      exact fun h => hnd.1 (mem_add.mpr (.inr h))
    · have hmem : tag n.1 ∈ rest.tags tag := tag_mem_of_mem_tops hn
      have ha : tag a ≠ tag n.1 := fun h => hnd.1 (mem_add.mpr (.inr (h ▸ hmem)))
      rw [if_neg (by simpa using ha), tags, tags, cons_add, add_assoc, ihr hn hnd.2.2.1]

end Tops

end Forest

end MiniTree
