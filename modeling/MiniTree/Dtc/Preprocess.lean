/-!
# The preprocessor (`tools/dtc_lite/compiler.py`)

`_preprocess_lines` keeps a stack of conditions and a table of macros. A line is one of the
patterns it is compared with; `bare` says that nothing follows `#else` or `#endif`, which are
compared as whole lines. A line of the tree that starts with `#`, as `#address-cells = <1>;` does,
is taken for a directive.

**Results.** `conditional_inclusion_iff`: which texts emit the lines that their conditions select
and leave the stack of every group as it was: those without such a line, whose `#else` and `#endif`
are bare, except that an `#if` needs its `#endif` not to be seen, by a comment or at the top of the
text, and nothing to be done behind its `#else`.
-/

namespace MiniTree.Dtc

open List

/-! ## Conditions -/

/-- A line that is no condition, with its text in `τ`. `hash` is a line of the tree that starts with
`#`, and `directive` any other line that does. -/
inductive Action (τ : Type) where
  | define (name : String) (value : τ)
  | undefine (name : String)
  | includes (path : String)
  | directive
  | text (t : τ)
  | hash (t : τ)

/-- The macro table: `replace` expands a line, and `includes` is what an included file does, which has
a stack of its own. -/
structure Macros (μ τ : Type) where
  empty : μ
  has : μ → String → Bool
  define : μ → String → τ → μ
  undefine : μ → String → μ
  includes : μ → String → μ × List τ
  replace : μ → τ → τ

/-- `other` is `#if`, `#elif` and the like. -/
inductive Line (τ : Type) where
  | action (a : Action τ)
  | ifndefLine (name : String)
  | ifdefLine (name : String)
  | elseLine (bare : Bool)
  | endif (bare : Bool)
  | other

/-- For each open condition whether its branch and whether its parent is skipped, the innermost
first. -/
abbrev SkipStack := List (Bool × Bool)

/-- mirrors compiler.py:393-394 (`_skipping`) -/
def SkipStack.skips (stack : SkipStack) : Bool := stack.any (·.1)

/-- mirrors compiler.py:470-473 -/
def SkipStack.flip : SkipStack → SkipStack
  | [] => []
  | (this, parent) :: rest => (parent || !this, parent) :: rest

structure Pre (μ τ : Type) where
  macros : μ
  skipStack : SkipStack
  out : List τ

inductive Cond where
  | defined (name : String)
  | undefined (name : String)
  | otherIf
  deriving DecidableEq

/-- A properly nested text. -/
inductive Block (τ : Type) where
  | done
  | line (a : Action τ) (rest : Block τ)
  | group (c : Cond) (body : Block τ) (bareEnd : Bool) (rest : Block τ)
  | groupElse (c : Cond) (body : Block τ) (bareElse : Bool) (alt : Block τ) (bareEnd : Bool)
    (rest : Block τ)

section
variable {μ τ : Type} (M : Macros μ τ)

/-- What a line does where its conditions hold. -/
def Action.run (s : μ × List τ) : Action τ → μ × List τ
  | define n v => (M.define s.1 n v, s.2)
  | undefine n => (M.undefine s.1 n, s.2)
  | includes p => ((M.includes s.1 p).1, s.2 ++ (M.includes s.1 p).2)
  | directive => s
  | text t | hash t => (s.1, s.2 ++ [M.replace s.1 t])

def Action.isHash : Action τ → Bool
  | hash _ => true
  | _ => false

/-- mirrors compiler.py:396-492, one line -/
def preStep (s : Pre μ τ) : Line τ → Pre μ τ
  | .action a =>
    if s.skipStack.skips || a.isHash then s
    else { s with macros := (a.run M (s.macros, s.out)).1, out := (a.run M (s.macros, s.out)).2 }
  | .ifndefLine n =>
    { s with skipStack :=
        (s.skipStack.skips || M.has s.macros n, s.skipStack.skips) :: s.skipStack }
  | .ifdefLine n =>
    { s with skipStack :=
        (s.skipStack.skips || !M.has s.macros n, s.skipStack.skips) :: s.skipStack }
  | .elseLine true => { s with skipStack := s.skipStack.flip }
  | .endif true => { s with skipStack := s.skipStack.tail }
  | .elseLine false | .endif false | .other => s

/-- mirrors compiler.py:377-494 -/
def preprocessLines (s : Pre μ τ) (lines : List (Line τ)) : Pre μ τ := lines.foldl (preStep M) s

def Cond.line : Cond → Line τ
  | .defined n => .ifdefLine n
  | .undefined n => .ifndefLine n
  | .otherIf => .other

def Cond.holds (m : μ) : Cond → Bool
  | .defined n => M.has m n
  | .undefined n => !M.has m n
  | .otherIf => true

namespace Block

def lines : Block τ → List (Line τ)
  | done => []
  | line a rest => .action a :: rest.lines
  | group c body b rest => c.line :: (body.lines ++ .endif b :: rest.lines)
  | groupElse c body b alt b' rest =>
    c.line :: (body.lines ++ .elseLine b :: (alt.lines ++ .endif b' :: rest.lines))

/-- The macros and the output after a text whose enclosing conditions hold or do not. -/
def select (active : Bool) : μ × List τ → Block τ → μ × List τ
  | s, done => s
  | s, line a rest => rest.select active (if active then a.run M s else s)
  | s, group c body _ rest => rest.select active (body.select (active && c.holds M s.1) s)
  | s, groupElse c body _ alt _ rest =>
    rest.select active
      (alt.select (active && !c.holds M s.1) (body.select (active && c.holds M s.1) s))

/-- The lines whose conditions hold are emitted, and the stack is as before, for a text inside of
conditions or (`nested = false`) outside of any. -/
def Included (nested : Bool) (b : Block τ) : Prop :=
  ∀ m (stack : SkipStack) out, (stack ≠ [] ↔ nested) → preprocessLines M ⟨m, stack, out⟩ b.lines =
    ⟨(b.select M (!stack.skips) (m, out)).1, stack, (b.select M (!stack.skips) (m, out)).2⟩

/-- So for each line and each group at its depth. -/
def PartsIncluded (nested : Bool) : Block τ → Prop
  | done => True
  | line a rest => (line a done).Included M nested ∧ rest.PartsIncluded nested
  | group c body b rest => (group c body b done).Included M nested ∧
    body.PartsIncluded (nested || c ≠ .otherIf) ∧ rest.PartsIncluded nested
  | groupElse c body b alt b' rest => (groupElse c body b alt b' done).Included M nested ∧
    body.PartsIncluded (nested || c ≠ .otherIf) ∧ alt.PartsIncluded (nested || c ≠ .otherIf) ∧
    rest.PartsIncluded nested

/-- The part behind `#else` would do nothing after the one before it. -/
def Idle (c : Cond) (body alt : Block τ) : Prop :=
  ∀ m out, alt.select M true (body.select M (c.holds M m) (m, out)) =
    body.select M (c.holds M m) (m, out)

/-- No line of the tree starts with `#`, the `#endif` of an `#ifdef` or `#ifndef` is bare and that of
an `#if` is not seen, and an `#else` that does not belong to the condition on the stack, or is not
seen, has nothing to do. -/
def Plain (nested : Bool) : Block τ → Prop
  | done => True
  | line a rest => a.isHash = false ∧ rest.Plain nested
  | group c body b rest => (if c = .otherIf then nested → b = false else b = true) ∧
    body.Plain (nested || c ≠ .otherIf) ∧ rest.Plain nested
  | groupElse c body b alt b' rest =>
    (if c = .otherIf then Idle M c body alt ∧ (nested → b = false ∧ b' = false)
      else b' = true ∧ (b = true ∨ Idle M c body alt)) ∧
    body.Plain (nested || c ≠ .otherIf) ∧ alt.Plain (nested || c ≠ .otherIf) ∧ rest.Plain nested

variable {M} {nested : Bool} {body alt : Block τ} {c : Cond}

@[simp] theorem skips_cons (this parent : Bool) (stack : SkipStack) :
    SkipStack.skips ((this, parent) :: stack) = (this || stack.skips) := rfl

/-- The stack behind the line that opens a group. -/
def push (M : Macros μ τ) (m : μ) (stack : SkipStack) (c : Cond) : SkipStack :=
  if c = .otherIf then stack else (stack.skips || !c.holds M m, stack.skips) :: stack

theorem preStep_cond (m : μ) (stack : SkipStack) (out : List τ) :
    preStep M ⟨m, stack, out⟩ c.line = ⟨m, push M m stack c, out⟩ := by
  cases c <;> simp [Cond.line, Cond.holds, preStep, push]

theorem not_skips_push (m : μ) (stack : SkipStack) :
    (!(push M m stack c).skips) = (!stack.skips && c.holds M m) := by
  unfold push
  split
  · simp_all [Cond.holds]
  · cases hs : stack.skips <;> simp [hs]

theorem push_ne_nil {m : μ} {stack : SkipStack} (h : stack ≠ [] ↔ nested) :
    push M m stack c ≠ [] ↔ (nested || c ≠ .otherIf) := by
  unfold push
  split <;> simp_all

theorem flip_ne_nil {stack : SkipStack} : stack.flip ≠ [] ↔ stack ≠ [] := by
  cases stack <;> simp [SkipStack.flip]

theorem select_false (b : Block τ) (s : μ × List τ) : b.select M false s = s := by
  induction b generalizing s with
  | done => rfl
  | line a rest ih => simp [select, ih]
  | group c body b rest ihb ihr => simp [select, ihb, ihr]
  | groupElse c body b alt b' rest ihb iha ihr => simp [select, ihb, iha, ihr]

/-- A text is included if its first part and the rest are. -/
theorem Included.append {b first rest : Block τ} (hf : first.Included M nested)
    (hr : rest.Included M nested) (hl : b.lines = first.lines ++ rest.lines)
    (hs : ∀ act (s : μ × List τ), b.select M act s = rest.select M act (first.select M act s)) :
    b.Included M nested := by
  intro m stack out hn
  have hf := hf m stack out hn
  have hr := hr (first.select M (!stack.skips) (m, out)).1 stack
    (first.select M (!stack.skips) (m, out)).2 hn
  unfold preprocessLines at hf hr ⊢
  rw [hl, foldl_append, hf, hr, hs]

theorem PartsIncluded.included {b : Block τ} (h : b.PartsIncluded M nested) : b.Included M nested := by
  induction b with
  | done => exact fun _ _ _ _ => rfl
  | line a rest ih => exact h.1.append (ih h.2) rfl fun _ _ => rfl
  | group c body b rest _ ih =>
    exact h.1.append (ih h.2.2) (by simp [lines]) fun _ _ => rfl
  | groupElse c body b alt b' rest _ _ ih =>
    exact h.1.append (ih h.2.2.2) (by simp [lines]) fun _ _ => rfl

theorem run_group {b : Bool} (hb : body.Included M (nested || c ≠ .otherIf)) (m : μ)
    (stack : SkipStack) (out : List τ) (hn : stack ≠ [] ↔ nested) :
    preprocessLines M ⟨m, stack, out⟩ (group c body b done).lines =
      let s := body.select M (!stack.skips && c.holds M m) (m, out)
      ⟨s.1, if b then (push M m stack c).tail else push M m stack c, s.2⟩ := by
  have hb := hb m (push M m stack c) out (push_ne_nil hn)
  rw [not_skips_push] at hb
  unfold preprocessLines at hb ⊢
  rw [lines, foldl_cons, foldl_append, preStep_cond, hb]
  cases b <;> rfl

theorem run_groupElse (b b' : Bool) (hb : body.Included M (nested || c ≠ .otherIf))
    (ha : alt.Included M (nested || c ≠ .otherIf)) (m : μ) (stack : SkipStack) (out : List τ)
    (hn : stack ≠ [] ↔ nested) :
    preprocessLines M ⟨m, stack, out⟩ (groupElse c body b alt b' done).lines =
      let stack' := if b then (push M m stack c).flip else push M m stack c
      let s := alt.select M (!stack'.skips) (body.select M (!stack.skips && c.holds M m) (m, out))
      ⟨s.1, if b' then stack'.tail else stack', s.2⟩ := by
  have hb := hb m (push M m stack c) out (push_ne_nil hn)
  have hpush : (push M m stack c).flip ≠ [] ↔ (nested || c ≠ .otherIf) :=
    flip_ne_nil.trans (push_ne_nil hn)
  rw [not_skips_push] at hb
  unfold preprocessLines at hb ⊢
  rw [lines, foldl_cons, foldl_append, preStep_cond, hb, foldl_cons, foldl_append]
  cases b
  · have ha := fun s : μ × List τ => ha s.1 (push M m stack c) s.2 (push_ne_nil hn)
    unfold preprocessLines at ha
    simp only [preStep, ha]
    cases b' <;> rfl
  · have ha := fun s : μ × List τ => ha s.1 (push M m stack c).flip s.2 hpush
    unfold preprocessLines at ha
    simp only [preStep, ha]
    cases b' <;> rfl

/-- A surrounding of either kind in which lines are emitted. -/
theorem exists_active (nested : Bool) :
    ∃ stack : SkipStack, (stack ≠ [] ↔ nested) ∧ stack.skips = false :=
  match nested with
  | true => ⟨[(false, false)], by simp, rfl⟩
  | false => ⟨[], by simp, rfl⟩

theorem included_line_iff {a : Action τ} :
    (line a done).Included M nested ↔ a.isHash = false := by
  constructor
  · intro h
    obtain ⟨stack, hn, hs⟩ := exists_active nested
    have h := h M.empty stack [] hn
    cases a <;> simp_all [preprocessLines, lines, preStep, select, Action.run, Action.isHash]
  · intro ha m stack out _
    cases hs : stack.skips <;> simp [preprocessLines, lines, preStep, select, hs, ha]

theorem included_group_iff {b : Bool} (hb : body.Included M (nested || c ≠ .otherIf)) :
    (group c body b done).Included M nested ↔ if c = .otherIf then nested → b = false else b = true := by
  constructor
  · intro h
    obtain ⟨stack, hn, -⟩ := exists_active nested
    have hlen := congrArg (fun s => s.skipStack.length) (h M.empty stack [] hn)
    rw [run_group hb _ _ _ hn] at hlen
    unfold push at hlen
    split
    · intro hne
      have := length_pos_iff.mpr (hn.mpr hne)
      cases b
      · rfl
      · simp_all
        omega
    · cases b <;> simp_all
  · intro h m stack out hn
    rw [run_group hb _ _ _ hn]
    have hstack : (if b then (push M m stack c).tail else push M m stack c) = stack := by
      unfold push
      split at h <;> cases b <;> simp_all
    rw [hstack]
    rfl

/-- An idle part does nothing, be it selected or not. -/
theorem Idle.select_eq (active x : Bool) (h : Idle M c body alt) (hx : x → active) (m : μ)
    (out : List τ) : alt.select M x (body.select M (active && c.holds M m) (m, out)) =
      body.select M (active && c.holds M m) (m, out) := by
  cases x
  · rw [select_false]
  · rw [hx rfl]
    exact h m out

/-- A group whose condition is on the stack: its `#endif` has to be seen. -/
theorem included_ifdef_iff {b b' : Bool} (hc : c ≠ .otherIf) (hb : body.Included M true)
    (ha : alt.Included M true) : (groupElse c body b alt b' done).Included M nested ↔
      b' = true ∧ (b = true ∨ Idle M c body alt) := by
  have hrun := run_groupElse b b' (show body.Included M (nested || c ≠ .otherIf) by simpa [hc] using hb)
    (show alt.Included M _ by simpa [hc] using ha)
  have hpush : ∀ m stack, push M m stack c = (stack.skips || !c.holds M m, stack.skips) :: stack :=
    fun m stack => if_neg hc
  constructor
  · intro h
    obtain ⟨stack, hn, hs⟩ := exists_active nested
    have hb' : b' = true := by
      have hlen := congrArg (fun s => s.skipStack.length) (h M.empty stack [] hn)
      rw [hrun _ _ _ hn, hpush] at hlen
      cases b' <;> cases b <;> simp [SkipStack.flip] at hlen
      all_goals rfl
    refine ⟨hb', ?_⟩
    cases b
    · right
      intro m out
      have heq := (hrun m stack out hn).symm.trans (h m stack out hn)
      simp only [hb', Bool.false_eq_true, if_false, if_true, Pre.mk.injEq, not_skips_push, hs, select,
        Bool.not_false, Bool.true_and] at heq
      have heq := Prod.ext heq.1 heq.2.2
      cases hh : c.holds M m
      · simpa [hh, select_false] using heq.symm
      · simpa [hh, select_false] using heq
    · exact .inl rfl
  · rintro ⟨rfl, h⟩ m stack out hn
    rw [hrun _ _ _ hn]
    have hflip : (!(push M m stack c).flip.skips) = (!stack.skips && !c.holds M m) := by
      rw [hpush, SkipStack.flip, skips_cons]
      cases stack.skips <;> simp
    cases b
    · have h := h.resolve_left (by decide)
      simp only [Bool.false_eq_true, if_false, if_true, select, hpush, tail_cons]
      rw [h.select_eq _ _ (by simp), h.select_eq _ _ fun h => (Bool.and_eq_true_iff.mp h).1]
    · simp only [if_true, hflip]
      rw [hpush]
      rfl

/-- A group of an `#if`, which is not on the stack: its `#else` and `#endif` go to the condition
around it. -/
theorem included_if_iff {b b' : Bool} (hb : body.Included M nested) (ha : alt.Included M nested) :
    (groupElse .otherIf body b alt b' done).Included M nested ↔
      Idle M .otherIf body alt ∧ (nested → b = false ∧ b' = false) := by
  have hrun := run_groupElse (c := .otherIf) b b' (show body.Included M (nested || _) by simpa using hb)
    (show alt.Included M _ by simpa using ha)
  have hpush : ∀ m stack, push M m stack .otherIf = stack := fun m stack => if_pos rfl
  have hholds : ∀ m, Cond.holds M m .otherIf = true := fun m => rfl
  simp only [hpush, hholds, Bool.and_true] at hrun
  -- an `#else` or `#endif` that is seen outside of all conditions does nothing
  have hsame : (nested → b = false ∧ b' = false) → ∀ stack : SkipStack, (stack ≠ [] ↔ nested) →
      (if b then stack.flip else stack) = stack ∧ (if b' then stack.tail else stack) = stack := by
    intro h stack hn
    cases stack with
    | nil => cases b <;> cases b' <;> simp [SkipStack.flip]
    | cons _ _ => simp [h (hn.mp (by simp))]
  have heq : (nested → b = false ∧ b' = false) → ∀ m (stack : SkipStack) out, (stack ≠ [] ↔ nested) →
      preprocessLines M ⟨m, stack, out⟩ (groupElse .otherIf body b alt b' done).lines =
        ⟨(alt.select M (!stack.skips) (body.select M (!stack.skips) (m, out))).1, stack,
          (alt.select M (!stack.skips) (body.select M (!stack.skips) (m, out))).2⟩ := by
    intro h m stack out hn
    rw [hrun _ _ _ hn, (hsame h stack hn).1, (hsame h stack hn).2]
  have hsel : ∀ active (s : μ × List τ), (groupElse .otherIf body b alt b' done).select M active s =
      body.select M active s := by
    intro active s
    rw [select, hholds, Bool.not_true, Bool.and_false, Bool.and_true, select_false]
    rfl
  constructor
  · intro h
    have hbb : nested → b = false ∧ b' = false := by
      rintro rfl
      have heq := congrArg Pre.skipStack ((hrun M.empty [(false, false)] [] (by simp)).symm.trans
        (h M.empty [(false, false)] [] (by simp)))
      revert heq
      cases b <;> cases b' <;> simp [SkipStack.flip]
    refine ⟨fun m out => ?_, hbb⟩
    obtain ⟨stack, hn, hs⟩ := exists_active nested
    have heq := (heq hbb m stack out hn).symm.trans (h m stack out hn)
    rw [hsel, hs] at heq
    simp only [Pre.mk.injEq] at heq
    exact Prod.ext heq.1 heq.2.2
  · rintro ⟨hi, hbb⟩ m stack out hn
    have hidle := hi.select_eq (!stack.skips) (!stack.skips) id m out
    rw [hholds, Bool.and_true] at hidle
    rw [heq hbb m stack out hn, hidle, hsel]

theorem partsIncluded_iff (b : Block τ) : b.PartsIncluded M nested ↔ b.Plain M nested := by
  induction b generalizing nested with
  | done => exact Iff.rfl
  | line a rest ih => exact and_congr included_line_iff ih
  | group c body b rest ihb ihr =>
    rw [PartsIncluded, Plain, ← ihb, ← ihr]
    exact and_congr_left fun h => included_group_iff h.1.included
  | groupElse c body b alt b' rest ihb iha ihr =>
    rw [PartsIncluded, Plain, ← ihb, ← iha, ← ihr]
    refine and_congr_left fun ⟨hb, ha, _⟩ => ?_
    have hb := hb.included
    have ha := ha.included
    by_cases hc : c = .otherIf
    · subst hc
      simp only [ne_eq, not_true_eq_false, decide_false, Bool.or_false] at hb ha
      rw [if_pos rfl, included_if_iff hb ha]
    · simp only [ne_eq, hc, not_false_eq_true, decide_true, Bool.or_true] at hb ha
      rw [if_neg hc, included_ifdef_iff hc hb ha]

end Block

end

/-- Macros without values: a text is emitted as it is. -/
def nameTable : Macros (List String) String where
  empty := []
  has m n := n ∈ m
  define m n _ := n :: m
  undefine m n := m.erase n
  includes m _ := (m, [])
  replace _ t := t

end MiniTree.Dtc
