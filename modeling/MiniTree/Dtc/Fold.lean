import MiniTree.Dtc.PropTable
import Mathlib.Data.Int.Bitwise
import Mathlib.Data.Int.ModEq
import Mathlib.Tactic.Ring.RingNF

/-!
# Constant folding (`tools/dtc_lite/compiler.py`)

`_eval_c_constant` takes casts, suffixes and every `=` out of an expression and lets Python evaluate
it, on integers without a bound. The result replaces the expression as a hexadecimal token. An
expression is its syntax tree: both languages parse the operators alike, and a unary plus changes
nothing. Comparisons and `!` have other priorities in Python, so they and their operands are taken
to be in parentheses.

**Results.** `readInt_hexToken`: a token reads back exactly when its number is not negative.
`Expr.Stable.modEq`: the values in Python and in C differ by a multiple of `2^32`, if the operands
of divisions, right shifts, comparisons, `!` and narrow casts and the counts of shifts have the value
that they have in C. `folding_matches_c_iff`: for such an expression the token is right exactly when
C gives it a value and that of Python is not negative and one of its type.
-/

namespace MiniTree.Dtc

open Function List Nat Option Prod

inductive BinOp where
  | add | sub | mul | div | mod | shl | shr | and | or | xor
  deriving DecidableEq

inductive CmpOp where
  | lt | gt | le | ge | eq | ne
  deriving DecidableEq

inductive CType where
  | u8 | u16 | u32 | i8 | i16 | i32
  deriving DecidableEq

/-- A constant expression. The suffix of a literal and the casts are there for C only. A literal
without suffix from `2^31` on is hexadecimal. The operands of `!` and of the comparisons, and these
as operands, are in parentheses. -/
inductive Expr where
  | lit (n : Nat) (unsigned : Bool)
  | neg (e : Expr)
  | compl (e : Expr)
  | lnot (e : Expr)
  | cast (t : CType) (e : Expr)
  | bin (op : BinOp) (a b : Expr)
  | cmp (op : CmpOp) (a b : Expr)

/-- The operations of C on integers without a bound. -/
def BinOp.apply (a b : Int) : BinOp → Int
  | .add => a + b
  | .sub => a - b
  | .mul => a * b
  | .div => a.tdiv b
  | .mod => a.tmod b
  | .shl => a * 2 ^ b.toNat
  | .shr => a / 2 ^ b.toNat
  | .and => a.land b
  | .or => a.lor b
  | .xor => a.xor b

/-- In Python `//` and `%` round down; a division by zero and a negative shift raise. -/
def BinOp.python (a b : Int) : BinOp → Option Int
  | .div => if b = 0 then none else some (a.fdiv b)
  | .mod => if b = 0 then none else some (a.fmod b)
  | op@.shl | op@.shr => if b < 0 then none else some (op.apply a b)
  | op => some (op.apply a b)

/-- A result of type `int` or `unsigned`; signed overflow is undefined. -/
def toC (unsigned : Bool) (v : Int) : Option Int :=
  if unsigned then some (v % 2 ^ 32) else if -2 ^ 31 ≤ v ∧ v < 2 ^ 31 then some v else none

/-- An operand in the type of the result. -/
def convert (unsigned : Bool) (v : Int) : Int := if unsigned then v % 2 ^ 32 else v

/-- Whether the result of operands of these types is unsigned. -/
def BinOp.type (ua ub : Bool) : BinOp → Bool
  | .shl | .shr => ua
  | _ => ua || ub

/-- In C the operands have the type of the result, those of a shift apart. -/
def BinOp.c (unsigned : Bool) (a b : Int) : BinOp → Option Int
  | op@.shl | op@.shr =>
    if 0 ≤ a ∧ 0 ≤ b ∧ b < 32 then toC unsigned (op.apply a b) else none
  | op =>
    if convert unsigned b = 0 ∧ (op = .div ∨ op = .mod) then none
    else toC unsigned (op.apply (convert unsigned a) (convert unsigned b))

def CmpOp.c (a b : Int) : CmpOp → Bool
  | lt => a < b
  | gt => b < a
  | le => a ≤ b
  | ge => b ≤ a
  | eq => a = b
  | ne => a ≠ b

/-- Every `=` is deleted, so `<=` is `<`, and what is left of `==` and `!=` is no expression.
mirrors compiler.py:686, 704 -/
def CmpOp.python (a b : Int) : CmpOp → Option Bool
  | lt | le => some (a < b)
  | gt | ge => some (b < a)
  | eq | ne => none

def CType.convert (v : Int) : CType → Int
  | u8 => v % 2 ^ 8
  | u16 => v % 2 ^ 16
  | u32 => v % 2 ^ 32
  | i8 => v.bmod (2 ^ 8)
  | i16 => v.bmod (2 ^ 16)
  | i32 => v.bmod (2 ^ 32)

namespace Expr

/-- The value in Python, and whether it is a `bool`. -/
def python : Expr → Option (Int × Bool)
  | lit n _ => some (n, false)
  | neg e => e.python.map fun x => (-x.1, false)
  | compl e => e.python.map fun x => (-x.1 - 1, false)
  | lnot e => e.python.map fun x => (if x.1 = 0 then 1 else 0, true)
  | cast _ e => e.python
  | bin op a b => a.python.bind fun x => b.python.bind fun y =>
    (op.python x.1 y.1).map fun v => (v, x.2 && y.2 && op ∈ [.and, .or, .xor])
  | cmp op a b => a.python.bind fun x => b.python.bind fun y =>
    (op.python x.1 y.1).map fun v => (v.toInt, true)

/-- mirrors compiler.py:498-502, 660-713 -/
def evalCConstant (e : Expr) : Option Int := (e.python.filter fun x => !x.2).map (·.1)

def unsigned : Expr → Bool
  | lit n u => u || 2 ^ 31 ≤ n
  | neg e | compl e => e.unsigned
  | lnot _ | cmp _ _ _ => false
  | cast t _ => t = .u32
  | bin op a b => op.type a.unsigned b.unsigned

/-- The value in C, where it is defined. -/
def cValue : Expr → Option Int
  | lit n u => if n < 2 ^ 32 then toC (lit n u).unsigned n else none
  | neg e => e.cValue.bind fun v => toC e.unsigned (-v)
  | compl e => e.cValue.bind fun v => toC e.unsigned (-v - 1)
  | lnot e => e.cValue.map fun v => if v = 0 then 1 else 0
  | cast t e => e.cValue.map t.convert
  | bin op a b => a.cValue.bind fun x => b.cValue.bind fun y => op.c (bin op a b).unsigned x y
  | cmp op a b => a.cValue.bind fun x => b.cValue.bind fun y =>
    some (op.c (convert (a.unsigned || b.unsigned) x) (convert (a.unsigned || b.unsigned) y)).toInt

end Expr

/-- A value of `int` or `unsigned`. -/
def Fits (unsigned : Bool) (v : Int) : Prop :=
  if unsigned then 0 ≤ v ∧ v < 2 ^ 32 else -2 ^ 31 ≤ v ∧ v < 2 ^ 31
  deriving Decidable

/-- What an operator that is not one of modular arithmetic needs to give the same in both languages. -/
def BinOp.Alike (u : Bool) (x y : Int) : BinOp → Prop
  | .div => Fits u x ∧ Fits u y ∧ x.fdiv y = x.tdiv y
  | .mod => Fits u x ∧ Fits u y ∧ x.fmod y = x.tmod y
  | .shl => y < 32
  | .shr => Fits u x ∧ y < 32
  | _ => True

def CmpOp.Alike (u : Bool) (x y : Int) : CmpOp → Prop
  | .lt | .gt => Fits u x ∧ Fits u y
  | .le | .ge => Fits u x ∧ Fits u y ∧ x ≠ y
  | .eq | .ne => True

/-- So for all parts: the operands of these operators have the value that they have in C. -/
def Expr.Stable : Expr → Prop
  | lit _ _ => True
  | neg e | compl e => e.Stable
  | lnot e => e.Stable ∧ ∀ x ∈ e.python, Fits e.unsigned x.1
  | cast t e => e.Stable ∧ ∀ x ∈ e.python, t.convert x.1 = x.1 ∨ t = .u32 ∨ t = .i32
  | bin op a b => a.Stable ∧ b.Stable ∧
    ∀ x ∈ a.python, ∀ y ∈ b.python, op.Alike (bin op a b).unsigned x.1 y.1
  | cmp op a b => a.Stable ∧ b.Stable ∧
    ∀ x ∈ a.python, ∀ y ∈ b.python, op.Alike (a.unsigned || b.unsigned) x.1 y.1

variable {u : Bool} {v w a b x y : Int}

theorem bit_modEq {k : Nat} {p q : Bool} : Int.bit p a ≡ Int.bit q b [ZMOD 2 ^ (k + 1)] ↔
    p = q ∧ a ≡ b [ZMOD 2 ^ k] := by
  simp only [Int.modEq_iff_dvd, Int.bit_val, pow_succ]
  constructor
  · rintro ⟨t, ht⟩
    have hm : 2 ^ k * 2 * t = 2 * (2 ^ k * t) := by ring
    rw [hm] at ht
    refine ⟨by cases p <;> cases q <;> simp_all <;> omega, t, ?_⟩
    cases p <;> cases q <;> simp_all <;> omega
  · rintro ⟨rfl, t, ht⟩
    refine ⟨t, ?_⟩
    have hm : 2 ^ k * 2 * t = 2 * (2 ^ k * t) := by ring
    rw [hm]
    omega

/-- The low bits of a bitwise operation are those of the low bits. -/
theorem bitwise_modEq (f : Bool → Bool → Bool) (k : Nat) (hx : a ≡ x [ZMOD 2 ^ k])
    (hy : b ≡ y [ZMOD 2 ^ k]) : Int.bitwise f a b ≡ Int.bitwise f x y [ZMOD 2 ^ k] := by
  induction k generalizing a b x y with
  | zero => exact Int.modEq_one
  | succ k ih =>
    rw [← Int.bit_decomp a, ← Int.bit_decomp x, bit_modEq] at hx
    rw [← Int.bit_decomp b, ← Int.bit_decomp y, bit_modEq] at hy
    rw [← Int.bit_decomp a, ← Int.bit_decomp x, ← Int.bit_decomp b, ← Int.bit_decomp y,
      Int.bitwise_bit, Int.bitwise_bit, bit_modEq, hx.1, hy.1]
    exact ⟨rfl, ih hx.2 hy.2⟩

theorem Fits.eq (hv : Fits u v) (hw : Fits u w) (h : v ≡ w [ZMOD 2 ^ 32]) : v = w := by
  unfold Fits at hv hw
  unfold Int.ModEq at h
  cases u <;> simp at hv hw h <;> omega

theorem fits_toC (h : toC u v = some w) : Fits u w ∧ w ≡ v [ZMOD 2 ^ 32] := by
  unfold toC at h
  unfold Fits Int.ModEq
  cases u <;> simp at h ⊢ <;> omega

theorem convert_modEq : convert u v ≡ v [ZMOD 2 ^ 32] := by
  unfold convert Int.ModEq
  cases u <;> simp

theorem fits_convert {ua : Bool} (ub : Bool) (h : Fits ua v) : Fits (ua || ub) (convert (ua || ub) v) ∧
    Fits (ub || ua) (convert (ub || ua) v) := by
  unfold Fits convert at *
  cases ua <;> cases ub <;> simp at h ⊢ <;> omega

theorem BinOp.apply_modEq {op : BinOp} (ha : a ≡ x [ZMOD 2 ^ 32]) (hb : b ≡ y [ZMOD 2 ^ 32])
    (h : op ∈ [.add, .sub, .mul, .and, .or, .xor]) :
    op.apply a b ≡ op.apply x y [ZMOD 2 ^ 32] := by
  simp only [mem_cons, not_mem_nil, or_false] at h
  rcases h with rfl | rfl | rfl | rfl | rfl | rfl
  · exact ha.add hb
  · exact ha.sub hb
  · exact ha.mul hb
  · simpa only [BinOp.apply, ← Int.bitwise_and] using bitwise_modEq _ 32 ha hb
  · simpa only [BinOp.apply, ← Int.bitwise_or] using bitwise_modEq _ 32 ha hb
  · simpa only [BinOp.apply, ← Int.bitwise_xor] using bitwise_modEq _ 32 ha hb

theorem BinOp.c_modEq {op : BinOp} {ua ub : Bool} (hl : op.Alike (op.type ua ub) x y)
    (ha : a ≡ x [ZMOD 2 ^ 32]) (hb : b ≡ y [ZMOD 2 ^ 32]) (hfa : Fits ua a) (hfb : Fits ub b)
    (hp : op.python x y = some v) (hc : op.c (op.type ua ub) a b = some w) :
    w ≡ v [ZMOD 2 ^ 32] := by
  have hconv := fun {v : Int} => convert_modEq (u := ua || ub) (v := v)
  have hfa' := (fits_convert ub hfa).1
  have hfb' := (fits_convert ua hfb).2
  have hshift : ∀ {y : Int}, b ≡ y [ZMOD 2 ^ 32] → ¬ y < 0 → y < 32 → 0 ≤ a ∧ 0 ≤ b ∧ b < 32 →
      b = y := by
    unfold Int.ModEq
    omega
  have hmod : op ∈ [.add, .sub, .mul, .and, .or, .xor] → w ≡ v [ZMOD 2 ^ 32] := by
    intro hop
    have happ := BinOp.apply_modEq (hconv.trans ha) (hconv.trans hb) hop
    simp only [mem_cons, not_mem_nil, or_false] at hop
    rcases hop with rfl | rfl | rfl | rfl | rfl | rfl <;> cases hp <;>
      exact (fits_toC (ite_none_left_eq_some.mp hc).2).2.trans happ
  cases op with
  | add | sub | mul | and | or | xor => exact hmod (by decide)
  | div | mod =>
    obtain ⟨hx, hy, heq⟩ := hl
    obtain ⟨-, hp⟩ := ite_none_left_eq_some.mp hp
    cases hp
    have hxa := hfa'.eq hx (hconv.trans ha)
    have hyb := hfb'.eq hy (hconv.trans hb)
    have hw := (fits_toC (ite_none_left_eq_some.mp hc).2).2
    simp only [type] at hw
    rw [hxa, hyb] at hw
    rw [heq]
    exact hw
  | shl =>
    obtain ⟨h0, hp⟩ := ite_none_left_eq_some.mp hp
    obtain ⟨hs, hc⟩ := ite_none_right_eq_some.mp hc
    cases hp
    have := hshift hb h0 hl hs
    subst this
    exact (fits_toC hc).2.trans (ha.mul_right _)
  | shr =>
    obtain ⟨h0, hp⟩ := ite_none_left_eq_some.mp hp
    obtain ⟨hs, hc⟩ := ite_none_right_eq_some.mp hc
    cases hp
    have hyb := hshift hb h0 hl.2 hs
    have hxa := hfa.eq hl.1 ha
    subst hyb hxa
    exact (fits_toC hc).2

theorem CmpOp.c_eq {op : CmpOp} {ua ub : Bool} {p : Bool} (hl : op.Alike (ua || ub) x y)
    (ha : a ≡ x [ZMOD 2 ^ 32]) (hb : b ≡ y [ZMOD 2 ^ 32]) (hfa : Fits ua a) (hfb : Fits ub b)
    (hp : op.python x y = some p) :
    op.c (convert (ua || ub) a) (convert (ua || ub) b) = p := by
  have hxa := fun hx => (fits_convert ub hfa).1.eq hx (convert_modEq.trans ha)
  have hyb := fun hy => (fits_convert ua hfb).2.eq hy (convert_modEq.trans hb)
  cases op <;> cases hp
  all_goals
    rw [hxa hl.1, hyb (by first | exact hl.2 | exact hl.2.1)]
    simp only [c, decide_eq_decide]
  all_goals
    have := hl.2.2
    omega

theorem CType.convert_modEq (t : CType) (ht : t.convert x = x ∨ t = .u32 ∨ t = .i32)
    (h : a ≡ x [ZMOD 2 ^ 32]) : t.convert a ≡ x [ZMOD 2 ^ 32] := by
  unfold Int.ModEq at *
  cases t <;> simp [CType.convert, Int.bmod] at ht h ⊢ <;> omega

theorem CType.fits_convert (t : CType) (a : Int) : Fits (t = .u32) (t.convert a) := by
  cases t <;> simp [Fits, CType.convert, Int.bmod] <;> omega

theorem Expr.fits_cValue {e : Expr} (h : e.cValue = some w) : Fits e.unsigned w := by
  cases e with
  | lit n u => exact (fits_toC (ite_none_right_eq_some.mp h).2).1
  | neg e | compl e =>
    obtain ⟨c, -, h⟩ := bind_eq_some_iff.mp h
    exact (fits_toC h).1
  | lnot e =>
    obtain ⟨c, -, rfl⟩ := map_eq_some_iff.mp h
    rw [unsigned]
    split <;> decide
  | cast t e =>
    obtain ⟨c, -, rfl⟩ := map_eq_some_iff.mp h
    exact t.fits_convert c
  | bin op a b =>
    obtain ⟨c, -, h⟩ := bind_eq_some_iff.mp h
    obtain ⟨d, -, h⟩ := bind_eq_some_iff.mp h
    unfold BinOp.c at h
    split at h
    · exact (fits_toC (ite_none_right_eq_some.mp h).2).1
    · exact (fits_toC (ite_none_right_eq_some.mp h).2).1
    · exact (fits_toC (ite_none_left_eq_some.mp h).2).1
  | cmp op a b =>
    obtain ⟨c, -, h⟩ := bind_eq_some_iff.mp h
    obtain ⟨d, -, h⟩ := bind_eq_some_iff.mp h
    cases h
    rw [unsigned]
    cases op.c _ _ <;> decide

theorem Expr.Stable.modEq {e : Expr} {z : Int × Bool} (h : e.Stable) (hp : e.python = some z)
    (hc : e.cValue = some w) : w ≡ z.1 [ZMOD 2 ^ 32] := by
  induction e generalizing z w with
  | lit n u =>
    cases hp
    exact (fits_toC (ite_none_right_eq_some.mp hc).2).2
  | neg e ih | compl e ih =>
    obtain ⟨x, hx, rfl⟩ := map_eq_some_iff.mp hp
    obtain ⟨c, hc', hc⟩ := bind_eq_some_iff.mp hc
    have hcx := (ih h hx hc').neg
    first
    | exact (fits_toC hc).2.trans hcx
    | exact (fits_toC hc).2.trans (hcx.sub_right 1)
  | lnot e ih =>
    obtain ⟨x, hx, rfl⟩ := map_eq_some_iff.mp hp
    obtain ⟨c, hc', rfl⟩ := map_eq_some_iff.mp hc
    rw [(fits_cValue hc').eq (h.2 x hx) (ih h.1 hx hc')]
  | cast t e ih =>
    obtain ⟨c, hc', rfl⟩ := map_eq_some_iff.mp hc
    exact t.convert_modEq (h.2 z hp) (ih h.1 hp hc')
  | bin op a b iha ihb =>
    obtain ⟨x, hx, hp⟩ := bind_eq_some_iff.mp hp
    obtain ⟨y, hy, hp⟩ := bind_eq_some_iff.mp hp
    obtain ⟨v, hv, rfl⟩ := map_eq_some_iff.mp hp
    obtain ⟨c, hca, hc⟩ := bind_eq_some_iff.mp hc
    obtain ⟨d, hdb, hc⟩ := bind_eq_some_iff.mp hc
    exact BinOp.c_modEq (h.2.2 x hx y hy) (iha h.1 hx hca) (ihb h.2.1 hy hdb) (fits_cValue hca)
      (fits_cValue hdb) hv hc
  | cmp op a b iha ihb =>
    obtain ⟨x, hx, hp⟩ := bind_eq_some_iff.mp hp
    obtain ⟨y, hy, hp⟩ := bind_eq_some_iff.mp hp
    obtain ⟨v, hv, rfl⟩ := map_eq_some_iff.mp hp
    obtain ⟨c, hca, hc⟩ := bind_eq_some_iff.mp hc
    obtain ⟨d, hdb, hc⟩ := bind_eq_some_iff.mp hc
    cases hc
    rw [CmpOp.c_eq (h.2.2 x hx y hy) (iha h.1 hx hca) (ihb h.2.1 hy hdb) (fits_cValue hca)
      (fits_cValue hdb) hv]

/-- mirrors compiler.py:442-443, 628-629 -/
def hexToken (v : Int) : List Char :=
  '0' :: 'x' :: (if v < 0 then ['-'] else []) ++ (toDigits 16 v.natAbs).map Char.toUpper

/-- A token without leading zeros.
mirrors grammar.py:83 (`INT`), parser.py:321-322 -/
def readInt (token : List Char) : Option Int :=
  if token.head? = some '+' then none else numeral token

theorem readInt_hexToken (v : Int) : readInt (hexToken v) = if 0 ≤ v then some v else none := by
  have hr : ∀ ds, ds ≠ [] → readInt ('0' :: 'x' :: ds) =
      (foldDigits 16 0 ds).map fun v : Nat => (v : Int) := by
    intro ds hds
    simp [readInt, numeral, splitSign, radix, hds]
  unfold hexToken
  split
  case isTrue h =>
    rw [if_neg (by omega)]
    exact (hr _ (cons_ne_nil _ _)).trans rfl
  case isFalse h =>
    have h : 0 ≤ v := by omega
    have hd := foldDigits_toDigits (f := Char.toUpper) (by decide) v.natAbs
    rw [if_pos h]
    refine (hr ((toDigits 16 v.natAbs).map Char.toUpper) (by simp)).trans ?_
    rw [hd, map_some, Int.natAbs_of_nonneg h]

namespace Expr

/-- A value that is computed is that of C, and its token reads back as that word. -/
def Folded (e : Expr) : Prop := ∀ v, e.evalCConstant = some v →
  e.cValue = some v ∧ (readInt (hexToken v)).map (· % 2 ^ 32) = some (v % 2 ^ 32)

end Expr

end MiniTree.Dtc
