import MiniTree.Core.Bytes
import MiniTree.Core.RingBuffer

/-!
# NOR flash

A device whose bytes can be erased to `0xFF` and programmed, where programming can only clear
bits. `programmed` says which bytes were programmed since they were last erased.

**Results.** `Blank.read_program`: what is programmed into blank bytes is read back.
`mem_program_of_not`, `mem_erase_of_not`: the bytes outside of an operation keep their value.
-/

namespace MiniTree.Core

open List

structure Flash where
  mem : Nat → UInt8
  programmed : Nat → Bool

namespace Flash

def erased : Flash := ⟨fun _ => 0xFF, fun _ => false⟩

/-- `a` is one of the `n` bytes from `off` on. -/
def Within (off n a : Nat) : Prop := off ≤ a ∧ a < off + n
  deriving Decidable

def erase (f : Flash) (off n : Nat) : Flash where
  mem a := if Within off n a then 0xFF else f.mem a
  programmed a := if Within off n a then false else f.programmed a

def program (f : Flash) (off : Nat) (data : Bytes) : Flash where
  mem a := if Within off data.length a then f.mem a &&& byteAt data (a - off) else f.mem a
  programmed a := if Within off data.length a then true else f.programmed a

def read (f : Flash) (off n : Nat) : Bytes := copyFrom f.mem off n

/-- Byte `a` is as an erase leaves it. -/
def Blank (f : Flash) (a : Nat) : Prop := f.mem a = 0xFF ∧ f.programmed a = false

variable {f : Flash} {off n a : Nat} {data : Bytes}

theorem blank_erase (h : Within off n a) : (f.erase off n).Blank a := ⟨if_pos h, if_pos h⟩

theorem Blank.erase (h : f.Blank a) : (f.erase off n).Blank a := by
  by_cases hw : Within off n a
  · exact blank_erase hw
  · exact ⟨(if_neg hw).trans h.1, (if_neg hw).trans h.2⟩

theorem Blank.program (h : f.Blank a) (hn : ¬ Within off data.length a) :
    (f.program off data).Blank a :=
  ⟨(if_neg hn).trans h.1, (if_neg hn).trans h.2⟩

theorem mem_erase_of_not (h : ¬ Within off n a) : (f.erase off n).mem a = f.mem a := if_neg h

theorem mem_program_of_not (h : ¬ Within off data.length a) : (f.program off data).mem a = f.mem a :=
  if_neg h

theorem read_congr {f' : Flash} (h : ∀ a, Within off n a → f'.mem a = f.mem a) :
    f'.read off n = f.read off n :=
  map_congr_left fun _ hi =>
    h _ ⟨Nat.le_add_right .., Nat.add_lt_add_left (mem_range.mp hi) _⟩

theorem read_length (f : Flash) (off n : Nat) : (f.read off n).length = n := copyFrom_length ..

theorem read_add (f : Flash) (off n m : Nat) :
    f.read off (n + m) = f.read off n ++ f.read (off + n) m := by
  simp only [read, copyFrom, range_add, map_append, map_map, add_assoc]
  rfl

theorem read_slice (f : Flash) (off : Nat) {n k m : Nat} (h : k + m ≤ n) :
    f.read (off + k) m = slice (f.read off n) k m := by
  obtain ⟨d, rfl⟩ := Nat.exists_eq_add_of_le h
  rw [read_add, read_add, slice, append_assoc,
    drop_left' (read_length ..), take_left' (read_length ..)]

theorem Blank.read_program (off : Nat) (data : Bytes) (h : ∀ a, Within off data.length a → f.Blank a) :
    (f.program off data).read off data.length = data := by
  apply ext_getElem (read_length ..)
  intro i h1 h2
  have hw : Within off data.length (off + i) := ⟨Nat.le_add_right .., Nat.add_lt_add_left h2 _⟩
  simp only [read, copyFrom, getElem_map, getElem_range, Flash.program]
  rw [if_pos hw, (h _ hw).1, Nat.add_sub_cancel_left]
  have hb : byteAt data i = data[i] := by
    unfold byteAt
    rw [getD_eq_getElem?_getD, List.getElem?_eq_getElem h2, Option.getD_some]
  rw [hb]
  exact UInt8.neg_one_and

end Flash

end MiniTree.Core
