import MiniTree.Dtc.Fold
import Mathlib.Data.List.DropRight

/-!
# Enumerators of C headers (`tools/dtc_lite/compiler.py`)

`_extract_enums_from_text` records the constants of the enum blocks of a header as tokens. It cuts a
block at its commas; a piece is a name, or a name and the text of an expression, which both languages
parse alike.

**Results.** `scanItems_texts`: the items of a block are read as they are written.
`enums_match_c_iff`: what is recorded is what C gives exactly when no constant is negative and each
is the value that its expression has without a bound.
-/

namespace MiniTree.Dtc

open Function List Nat Option Prod

variable {v : Int}

/-- The value of an enumerator; `name` is an earlier one. -/
inductive EnumExpr where
  | lit (n : Nat) (unsigned : Bool)
  | neg (e : EnumExpr)
  | add (a b : EnumExpr)
  | shl (a b : EnumExpr)
  | name (x : List Char)

abbrev Enumerator := List Char × Option EnumExpr

abbrev MacroTable := List Char → Option (List Char)

section
variable (env : List Char → Option Int)

/-- The value in Python, on integers without a bound. -/
def EnumExpr.python : EnumExpr → Option Int
  | lit n _ => some n
  | neg e => e.python.map fun v => -v
  | add a b => a.python.bind fun x => b.python.bind (BinOp.add.python x)
  | shl a b => a.python.bind fun x => b.python.bind (BinOp.shl.python x)
  | name x => env x

def EnumExpr.unsigned : EnumExpr → Bool
  | lit n u => (Expr.lit n u).unsigned
  | neg e => e.unsigned
  | add a b => a.unsigned || b.unsigned
  | shl a _ => a.unsigned
  | name _ => false

def EnumExpr.cValue : EnumExpr → Option Int
  | lit n u => (Expr.lit n u).cValue
  | neg e => e.cValue.bind fun v => toC e.unsigned (-v)
  | add a b => a.cValue.bind fun x => b.cValue.bind (BinOp.add.c (add a b).unsigned x)
  | shl a b => a.cValue.bind fun x => b.cValue.bind (BinOp.shl.c a.unsigned x)
  | name x => env x

/-- An enumerator has type `int`, and without a value it is one more than the last. -/
def enumValue (last : Int) : Option EnumExpr → Option Int
  | none => toC false (last + 1)
  | some e => (e.cValue env).bind (toC false)

/-- The constants of a block in C. -/
def cEnum (last : Int) (env : List Char → Option Int) :
    List Enumerator → Option (List (List Char × Int))
  | [] => some []
  | (ename, e) :: items => (enumValue env last e).bind fun v =>
    (cEnum v (update env ename (some v)) items).map ((ename, v) :: ·)

/-- No constant is negative, and each is what its expression is without a bound, or counts on from
the last where that has no value: no part of a wrap-around is left. -/
def Unbounded (last : Int) (env : List Char → Option Int) : List Enumerator → Prop
  | [] => True
  | (ename, e) :: items => ∀ v ∈ enumValue env last e,
    0 ≤ v ∧ (e.bind (EnumExpr.python env)).getD (last + 1) = v ∧
      Unbounded v (update env ename (some v)) items

end

/-- What a name is replaced by, read back.
mirrors compiler.py:552-591 (`_replace_macros`) -/
def recorded (macros : MacroTable) (x : List Char) : Option Int := (macros x).bind readInt

/-- The loop over the items of a block. A value that fails is counted on from the last one.
mirrors compiler.py:256-282 (`_extract_enums_from_text`) -/
def extractEnums (curVal : Int) (macros : MacroTable) : List Enumerator → MacroTable
  | [] => macros
  | (ename, e) :: items =>
    let val := (e.bind (EnumExpr.python (recorded macros))).getD (curVal + 1)
    extractEnums val (if (macros ename).isSome then macros
      else update macros ename (some (hexToken val))) items

variable {env : List Char → Option Int} {macros : MacroTable} {e : EnumExpr}
  {items : List Enumerator}

/-- An expression that has a value in C uses earlier enumerators only. -/
theorem EnumExpr.python_recorded (hm : ∀ x v, env x = some v → recorded macros x = some v)
    (h : e.cValue env = some v) : e.python (recorded macros) = e.python env := by
  induction e generalizing v with
  | lit n u => rfl
  | neg e ih =>
    obtain ⟨x, hx, -⟩ := bind_eq_some_iff.mp h
    rw [python, ih hx, python]
  | add a b iha ihb | shl a b iha ihb =>
    obtain ⟨x, hx, h⟩ := bind_eq_some_iff.mp h
    obtain ⟨y, hy, -⟩ := bind_eq_some_iff.mp h
    rw [python, iha hx, ihb hy, python]
  | name x => exact (hm x v h).trans h.symm

theorem extractEnums_old {last : Int} {x t : List Char} (h : macros x = some t) :
    extractEnums last macros items x = some t := by
  induction items generalizing last macros with
  | nil => exact h
  | cons i items ih =>
    refine ih ?_
    split
    · exact h
    · rename_i hn
      rwa [update_of_ne]
      rintro rfl
      exact hn (by rw [h]; rfl)

/-- A constant that is not negative is recorded as it is. -/
theorem recorded_update {x : List Char} (hm : ∀ x v, env x = some v → recorded macros x = some v)
    (hv : 0 ≤ v) (y : List Char) (w : Int) (hy : update env x (some v) y = some w) :
    recorded (update macros x (some (hexToken v))) y = some w := by
  by_cases hyx : y = x
  · subst hyx
    rw [update_self] at hy
    rw [recorded, update_self, bind_some, readInt_hexToken, if_pos hv]
    exact hy
  · rw [update_of_ne hyx] at hy
    rw [recorded, update_of_ne hyx]
    exact hm y w hy

theorem extractEnums_iff {last : Int} {vs : List (List Char × Int)}
    (hm : ∀ x v, env x = some v → recorded macros x = some v)
    (hnew : ∀ i ∈ items, macros i.1 = none) (hnd : (items.map fst).Nodup)
    (hc : cEnum last env items = some vs) :
    (∀ x ∈ vs, recorded (extractEnums last macros items) x.1 = some x.2) ↔
      Unbounded last env items := by
  induction items generalizing last env macros vs with
  | nil =>
    cases hc
    simp [Unbounded]
  | cons i items ih =>
    obtain ⟨ename, e⟩ := i
    obtain ⟨v, hv, hc⟩ := bind_eq_some_iff.mp hc
    obtain ⟨vs, hvs, rfl⟩ := map_eq_some_iff.mp hc
    obtain ⟨hni, hnd⟩ := nodup_cons.mp hnd
    obtain ⟨hname, hnew⟩ := forall_mem_cons.mp hnew
    have hval : e.bind (EnumExpr.python (recorded macros)) = e.bind (EnumExpr.python env) := by
      cases e with
      | none => rfl
      | some e =>
        obtain ⟨w, hw, -⟩ := bind_eq_some_iff.mp hv
        exact e.python_recorded hm hw
    obtain ⟨p, hp⟩ : ∃ p, (e.bind (EnumExpr.python env)).getD (last + 1) = p := ⟨_, rfl⟩
    have hstep : extractEnums last macros ((ename, e) :: items) =
        extractEnums p (update macros ename (some (hexToken p))) items := by
      rw [extractEnums, hval, hp, hname]
      rfl
    have hhead : recorded (extractEnums last macros ((ename, e) :: items)) ename =
        readInt (hexToken p) := by
      rw [hstep, recorded, extractEnums_old (update_self ..), bind_some]
    have hnew' : ∀ i ∈ items, update macros ename (some (hexToken v)) i.1 = none := fun i hi =>
      (update_of_ne (fun he => hni (mem_map.mpr ⟨i, hi, he⟩)) ..).trans (hnew i hi)
    rw [forall_mem_cons, Unbounded, hhead, readInt_hexToken, hv, hstep, hp]
    constructor
    · rintro ⟨hp, hrest⟩ w hw
      cases hw
      obtain ⟨h0, hp⟩ := ite_none_right_eq_some.mp hp
      cases hp
      exact ⟨h0, rfl, (ih (recorded_update hm h0) hnew' hnd hvs).mp hrest⟩
    · intro h
      obtain ⟨h0, rfl, hrest⟩ := h v rfl
      exact ⟨if_pos h0, (ih (recorded_update hm h0) hnew' hnd hvs).mpr hrest⟩

/-! The text of a block is cut at its commas, and a piece is a name or `NAME = EXPR` between blanks. -/

def isWord (c : Char) : Bool := c.isAlphanum || c = '_'

/-- `str.strip` -/
def strip (cs : List Char) : List Char :=
  (cs.dropWhile Char.isWhitespace).rdropWhile Char.isWhitespace

/-- The name and the expression of a piece without blanks around it.
mirrors compiler.py:262-267 -/
def scanItem (item : List Char) : Option (List Char × Option (List Char)) :=
  if item.takeWhile isWord = [] then none
  else match (item.dropWhile isWord).dropWhile Char.isWhitespace with
    | [] => some (item.takeWhile isWord, none)
    | '=' :: expr =>
      if expr.dropWhile Char.isWhitespace = [] then none
      else some (item.takeWhile isWord, some (expr.dropWhile Char.isWhitespace))
    | _ => none

/-- mirrors compiler.py:256-268 -/
def scanItems (body : List Char) : List (List Char × Option (List Char)) :=
  (body.splitOn ',').filterMap fun item => scanItem (strip item)

/-- The value of an enumerator as it is written, with the blanks before and after the `=`. -/
structure WrittenExpr where
  gap : List Char
  gap' : List Char
  expr : List Char
  blank : ∀ c ∈ gap ++ gap', c.isWhitespace
  comma : ',' ∉ expr
  tight : expr ≠ [] ∧ expr.dropWhile Char.isWhitespace = expr ∧
    expr.rdropWhile Char.isWhitespace = expr

structure WrittenItem where
  before : List Char
  ename : List Char
  eexpr : Option WrittenExpr
  behind : List Char
  blank : ∀ c ∈ before ++ behind, c.isWhitespace
  word : ename ≠ [] ∧ ∀ c ∈ ename, isWord c

namespace WrittenItem

def core (i : WrittenItem) : List Char :=
  i.ename ++ match i.eexpr with
    | none => []
    | some x => x.gap ++ ('=' :: x.gap') ++ x.expr

def text (i : WrittenItem) : List Char := i.before ++ (i.core ++ i.behind)

end WrittenItem

theorem isWord_not_blank {c : Char} (h : isWord c) : c.isWhitespace = false := by
  by_contra hw
  simp only [Char.isWhitespace, Bool.not_eq_false, Bool.or_eq_true, decide_eq_true_eq] at hw
  rcases hw with ((rfl | rfl) | rfl) | rfl <;> cases h

theorem rdropWhile_append {p : Char → Bool} {cs : List Char} (hne : cs ≠ [])
    (h : cs.rdropWhile p = cs) (pre : List Char) : (pre ++ cs).rdropWhile p = pre ++ cs := by
  rw [rdropWhile_eq_self_iff] at h ⊢
  intro hne'
  rw [getLast_append_of_ne_nil _ hne]
  exact h hne

theorem strip_append {pre cs post : List Char} (hb : ∀ c ∈ pre ++ post, c.isWhitespace)
    (hne : cs ≠ []) (hl : cs.dropWhile Char.isWhitespace = cs)
    (hr : cs.rdropWhile Char.isWhitespace = cs) : strip (pre ++ (cs ++ post)) = cs := by
  have hpost : (cs ++ post).dropWhile Char.isWhitespace = cs ++ post := by
    obtain ⟨c, cs, rfl⟩ := exists_cons_of_ne_nil hne
    have hc : ¬ c.isWhitespace := by
      intro hc
      rw [dropWhile_cons_of_pos hc] at hl
      have := congrArg length hl
      have := (dropWhile_sublist (p := Char.isWhitespace) (l := cs)).length_le
      simp at *
      omega
    rw [cons_append, dropWhile_cons_of_neg hc]
  unfold strip
  rw [dropWhile_append_of_pos fun c hc => hb c (mem_append_left _ hc), hpost, rdropWhile,
    reverse_append, dropWhile_append_of_pos fun c hc =>
      hb c (mem_append_right _ (mem_reverse.mp hc))]
  exact hr

namespace WrittenItem

variable (i : WrittenItem)

theorem strip_text : strip i.text = i.core := by
  obtain ⟨hne, hword⟩ := i.word
  have hblank := fun c hc => isWord_not_blank (hword c hc)
  refine strip_append i.blank ?_ ?_ ?_
  · simp [core, hne]
  · obtain ⟨c, cs, hcs⟩ := exists_cons_of_ne_nil hne
    rw [core, hcs, cons_append, dropWhile_cons_of_neg (by simp [hblank c (by simp [hcs])])]
  · unfold core
    cases hx : i.eexpr with
    | none =>
      rw [append_nil, rdropWhile_eq_self_iff]
      exact fun h => by simp [hblank _ (getLast_mem h)]
    | some x =>
      have htail := rdropWhile_append x.tight.1 x.tight.2.2 (x.gap ++ '=' :: x.gap')
      exact rdropWhile_append (by simp) htail i.ename

theorem scanItem_core : scanItem i.core = some (i.ename, i.eexpr.map (·.expr)) := by
  obtain ⟨hne, hword⟩ := i.word
  cases hx : i.eexpr with
  | none =>
    have hcore : i.core = i.ename ++ [] := by rw [core, hx]
    obtain ⟨htake, hdrop⟩ := span_append hword (show ∀ c ∈ [].head?, _ by simp)
    rw [hcore, scanItem]
    simp only [htake, hdrop, hne, if_false, dropWhile_nil]
    rfl
  | some x =>
    have hcore : i.core = i.ename ++ (x.gap ++ '=' :: (x.gap' ++ x.expr)) := by
      simp [core, hx]
    have hstop : ∀ c ∈ (x.gap ++ '=' :: (x.gap' ++ x.expr)).head?, isWord c = false := by
      cases hg : x.gap with
      | nil => simp [isWord]
      | cons d ds =>
        have hd := x.blank d (by simp [hg])
        rintro c hc
        cases hc
        by_contra hw
        rw [isWord_not_blank (Bool.of_not_eq_false hw)] at hd
        cases hd
    obtain ⟨htake, hdrop⟩ := span_append hword hstop
    have hgap : (x.gap ++ '=' :: (x.gap' ++ x.expr)).dropWhile Char.isWhitespace = _ :=
      (span_append (fun c hc => x.blank c (mem_append_left _ hc)) (by simp)).2
    have hgap' : (x.gap' ++ x.expr).dropWhile Char.isWhitespace = x.expr := by
      rw [dropWhile_append_of_pos fun c hc => x.blank c (mem_append_right _ hc), x.tight.2.1]
    simp [scanItem, hcore, htake, hdrop, hne, hgap, hgap', x.tight.1]

theorem comma_notMem_text : ',' ∉ i.text := by
  have hblank : ∀ cs : List Char, (∀ c ∈ cs, c.isWhitespace) → ',' ∉ cs := fun cs h hc =>
    absurd (h _ hc) (by decide)
  have hword : ',' ∉ i.ename := fun hc => absurd (i.word.2 _ hc) (by decide)
  have hi := hblank _ i.blank
  cases hx : i.eexpr with
  | none => simp_all [text, core]
  | some x =>
    have hx' := hblank _ x.blank
    have hc := x.comma
    simp_all [text, core]

end WrittenItem

theorem scanItems_texts (is : List WrittenItem) :
    scanItems ([','].intercalate (is.map (·.text))) =
      is.map fun i => (i.ename, i.eexpr.map (·.expr)) := by
  have hcomma : ∀ t ∈ is.map (·.text), ',' ∉ t := by
    intro t ht
    obtain ⟨i, -, rfl⟩ := mem_map.mp ht
    exact i.comma_notMem_text
  unfold scanItems
  by_cases hne : is = []
  · subst hne
    rfl
  rw [splitOn_intercalate _ hcomma (by simpa using hne), filterMap_map]
  simp [WrittenItem.strip_text, WrittenItem.scanItem_core]

section
variable (tree : List Char → EnumExpr)

/-- A block in the text; `tree` parses the value of an item.
mirrors compiler.py:233-282 -/
def extractEnumsFromText (macros : MacroTable) (body : List Char) : MacroTable :=
  extractEnums (-1) macros ((scanItems body).map fun i => (i.1, i.2.map tree))

def enumerators (is : List WrittenItem) : List Enumerator :=
  is.map fun i => (i.ename, i.eexpr.map fun x => tree x.expr)

/-- What is recorded is a literal with the value of C. -/
def Recorded (macros : MacroTable) (is : List WrittenItem) : Prop :=
  ∀ vs, cEnum (-1) (fun _ => none) (enumerators tree is) = some vs → ∀ x ∈ vs,
    recorded (extractEnumsFromText tree macros ([','].intercalate (is.map (·.text)))) x.1 = some x.2

end

/-- `NAME` or `NAME = EXPR`. -/
def writtenItem (name : Char) (expr : Option (Char × List Char)) (h : isWord name)
    (hx : ∀ x ∈ expr, ',' ∉ x.1 :: x.2 ∧ (x.1 :: x.2).dropWhile Char.isWhitespace = x.1 :: x.2 ∧
      (x.1 :: x.2).rdropWhile Char.isWhitespace = x.1 :: x.2) : WrittenItem where
  before := [' ']
  ename := [name]
  eexpr := expr.pmap (fun x hx => ⟨[' '], [' '], x.1 :: x.2, by simp, hx.1, cons_ne_nil _ _, hx.2⟩) hx
  behind := []
  blank := by simp
  word := ⟨cons_ne_nil _ _, by simpa using h⟩

end MiniTree.Dtc
