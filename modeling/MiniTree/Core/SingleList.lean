import Mathlib.Data.List.Nodup
import Mathlib.Logic.Function.Basic

/-!
# Intrusive singly linked lists

Nodes that carry their own `next` pointer, kept as one map. A list is a ring through a sentinel:
an empty list is a sentinel that points at itself. Nothing stops a caller from linking a node
twice, so whether the map still describes a list is a property of it: `Ring next h l` says that
following `next` from the sentinel `h` meets exactly the nodes of `l` before it is back.

**Rules.** `Ring.push` and `Ring.remove` say what the two operations do to the list they are applied
to, `Ring.congr` that nothing else changes.
-/

namespace MiniTree.Core.SingleList

open Function List

variable {α : Type*}

section Operations

variable [DecidableEq α]

section
variable (next : α → α)

/-- `node->next = node`. -/
def init (node : α) : α → α := update next node node

/-- `node->next = prev->next; prev->next = node`. -/
def addAfter (prev node : α) : α → α :=
  update (update next node (next prev)) prev node

/-- `prev->next = node->next; node->next = node`. -/
def remove (node prev : α) : α → α := update (update next prev (next node)) node node

def isEmpty (node : α) : Bool := next node == node

end

variable {next : α → α}

theorem init_of_ne {node x : α} (h : x ≠ node) : init next node x = next x :=
  update_of_ne h ..

theorem addAfter_of_ne {prev node x : α} (hp : x ≠ prev) (hn : x ≠ node) :
    addAfter next prev node x = next x := by simp [addAfter, hp, hn]

theorem remove_of_ne {node prev x : α} (hp : x ≠ prev) (hn : x ≠ node) :
    remove next node prev x = next x := by simp [remove, hp, hn]

end Operations

/-- Following `next` from `a` meets the nodes of the list, then `b`. -/
def Path (next : α → α) : α → List α → α → Prop
  | a, [], b => next a = b
  | a, x :: l, b => next a = x ∧ Path next x l b

theorem Path.congr {next next' : α → α} {a b : α} {l : List α} (h : Path next a l b)
    (he : ∀ x ∈ a :: l, next' x = next x) : Path next' a l b := by
  induction l generalizing a with
  | nil => exact (he a mem_cons_self).trans h
  | cons x l ih =>
    refine ⟨(he a mem_cons_self).trans h.1, ih h.2 ?_⟩
    intro y hy
    exact he y (mem_cons_of_mem _ hy)

/-- The ring through the sentinel `h` holds the nodes of `l`, in this order. -/
structure Ring (next : α → α) (h : α) (l : List α) : Prop where
  path : Path next h l h
  fresh : h ∉ l
  nodup : l.Nodup

namespace Ring

variable {next next' : α → α} {h n : α} {l : List α}

theorem congr (hr : Ring next h l) (he : ∀ x, x = h ∨ x ∈ l → next' x = next x) : Ring next' h l where
  path := by
    apply hr.path.congr
    intro x hx
    exact he x (mem_cons.mp hx)
  fresh := hr.fresh
  nodup := hr.nodup

theorem nil (he : next h = h) : Ring next h [] := ⟨he, not_mem_nil, nodup_nil⟩

theorem next_eq (hr : Ring next h (n :: l)) : next h = n := hr.path.1

variable [DecidableEq α]

theorem isEmpty_iff (hr : Ring next h l) : isEmpty next h = true ↔ l = [] := by
  cases l with
  | nil => simpa [isEmpty, Path] using hr.path
  | cons x l =>
    have hx : x ≠ h := fun he => hr.fresh (he ▸ mem_cons_self)
    simpa [isEmpty, hr.next_eq] using hx

theorem push (hr : Ring next h l) (hh : n ≠ h) (hn : n ∉ l) :
    Ring (addAfter (init next n) h n) h (n :: l) := by
  have hold : ∀ x, x ≠ h → x ≠ n → addAfter (init next n) h n x = next x := by
    intro x hxh hxn
    rw [addAfter_of_ne hxh hxn, init_of_ne hxn]
  have hnext : addAfter (init next n) h n n = next h := by simp [addAfter, init, hh, hh.symm]
  refine ⟨⟨update_self .., ?_⟩, ?_, nodup_cons.mpr ⟨hn, hr.nodup⟩⟩
  · -- the new node points where the sentinel did, and the rest is not touched
    cases l with
    | nil => exact hnext.trans hr.path
    | cons x l =>
      refine ⟨hnext.trans hr.path.1, hr.path.2.congr ?_⟩
      intro y hy
      exact hold y (fun he => hr.fresh (he ▸ hy)) (fun he => hn (he ▸ hy))
  · intro hm
    rcases mem_cons.mp hm with he | hm
    · exact hh he.symm
    · exact hr.fresh hm

theorem remove (hr : Ring next h (n :: l)) : Ring (remove next n h) h l := by
  have hh : n ≠ h := fun he => hr.fresh (he ▸ mem_cons_self)
  obtain ⟨hnl, hl⟩ := nodup_cons.mp hr.nodup
  have hfresh : h ∉ l := fun hm => hr.fresh (mem_cons_of_mem _ hm)
  have hhead : SingleList.remove next n h h = next n := by simp [SingleList.remove, hh.symm]
  refine ⟨?_, hfresh, hl⟩
  cases l with
  | nil => exact hhead.trans hr.path.2
  | cons x l =>
    refine ⟨hhead.trans hr.path.2.1, hr.path.2.2.congr ?_⟩
    intro y hy
    exact remove_of_ne (fun he => hfresh (he ▸ hy)) (fun he => hnl (he ▸ hy))

end Ring

end MiniTree.Core.SingleList
