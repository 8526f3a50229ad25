import Mathlib.Logic.Function.Basic

/-!
# Labelled transition systems

The run semantics every machine of this development is an instance of. A
machine is given by a partial step function `next : S → L → Option S` (`none`
means the label is not enabled there); `LTS.ofFn` turns it into a transition
system, `LTS.restrict` keeps only the runs all of whose steps meet a condition
on the state before the step, and `Reachable` is what holds of a state at the
end of some run.

**Rules.** `IsInvariant.holds` packages the induction over runs,
`Reachable.of_restrict` forgets a restriction, and `Reachable.of_exec` and
`Reachable.of_execOk` turn a concrete schedule into a reachable state.
-/

namespace MiniTree.Core

open Option List

structure LTS (S L : Type*) where
  init : S → Prop
  step : S → L → S → Prop

namespace LTS

variable {S L : Type*} {T : LTS S L}

/-- The system of a partial step function. -/
def ofFn (init : S → Prop) (next : S → L → Option S) : LTS S L where
  init := init
  step s l s' := next s l = some s'

/-- The runs of `T` in which every step is taken in a state that allows it. -/
def restrict (T : LTS S L) (ok : S → L → Prop) : LTS S L where
  init := T.init
  step s l s' := ok s l ∧ T.step s l s'

/-- States at the end of a finite run. -/
inductive Reachable (T : LTS S L) : S → Prop
  | init {s : S} : T.init s → Reachable T s
  | step {s s' : S} {l : L} : Reachable T s → T.step s l s' → Reachable T s'

/-- `P` holds initially and no step leaves it. -/
structure IsInvariant (T : LTS S L) (P : S → Prop) : Prop where
  init : ∀ s, T.init s → P s
  step : ∀ s l s', P s → T.step s l s' → P s'

theorem IsInvariant.holds {P : S → Prop} (h : T.IsInvariant P)
    {s : S} (hr : T.Reachable s) : P s := by
  induction hr with
  | init h0 => exact h.init _ h0
  | step _ hs ih => exact h.step _ _ _ ih hs

theorem Reachable.of_restrict {ok : S → L → Prop} {s : S}
    (h : (T.restrict ok).Reachable s) : T.Reachable s := by
  induction h with
  | init h0 => exact .init h0
  | step _ hs ih => exact .step ih hs.2

/-- A condition may be replaced by one that follows from it in the states of the runs. -/
theorem Reachable.mono_of_reachable {ok ok' : S → L → Prop}
    (hok : ∀ s l, (T.restrict ok').Reachable s → ok s l → ok' s l) {s : S}
    (h : (T.restrict ok).Reachable s) : (T.restrict ok').Reachable s := by
  induction h with
  | init h0 => exact .init h0
  | step _ hs ih => exact .step ih ⟨hok _ _ ih hs.1, hs.2⟩

theorem Reachable.mono {ok ok' : S → L → Prop} (hok : ∀ s l, ok s l → ok' s l) {s : S}
    (h : (T.restrict ok).Reachable s) : (T.restrict ok').Reachable s :=
  h.mono_of_reachable fun s l _ => hok s l

def exec (next : S → L → Option S) : S → List L → Option S
  | s, [] => some s
  | s, l :: ls => (next s l).bind fun s' => exec next s' ls

/-- Run a schedule, stopping at a step the condition forbids. -/
def execOk (ok : S → L → Bool) (next : S → L → Option S) : S → List L → Option S
  | s, [] => some s
  | s, l :: ls => if ok s l then (next s l).bind fun s' => execOk ok next s' ls else none

theorem Reachable.exec {init : S → Prop} {next : S → L → Option S} {s s' : S}
    {ls : List L} (h : (ofFn init next).Reachable s) (he : exec next s ls = some s') :
    (ofFn init next).Reachable s' := by
  induction ls generalizing s with
  | nil =>
    cases he
    exact h
  | cons l ls ih =>
    obtain ⟨s1, h1, h2⟩ := bind_eq_some_iff.mp he
    exact ih (.step h h1) h2

theorem Reachable.execOk {init : S → Prop} {next : S → L → Option S}
    {ok : S → L → Prop} [∀ s l, Decidable (ok s l)] {s s' : S} {ls : List L}
    (h : ((ofFn init next).restrict ok).Reachable s)
    (he : execOk (fun s l => decide (ok s l)) next s ls = some s') :
    ((ofFn init next).restrict ok).Reachable s' := by
  induction ls generalizing s with
  | nil =>
    cases he
    exact h
  | cons l ls ih =>
    obtain ⟨hok, he⟩ := ite_none_right_eq_some.mp he
    obtain ⟨s1, h1, h2⟩ := bind_eq_some_iff.mp he
    exact ih (.step h ⟨of_decide_eq_true hok, h1⟩) h2

section Schedules

variable (init : S → Prop) (o : Option S) (next : S → L → Option S) (ok : S → L → Prop)
  [∀ s l, Decidable (ok s l)] (s : S) (ls : List L) (P : S → Prop) [DecidablePred P]

/-- A schedule whose outcome passes a test gives a reachable state that does. -/
theorem Reachable.of_exec (h : init s) (he : (LTS.exec next s ls).any (P ·) = true) :
    ∃ s', (ofFn init next).Reachable s' ∧ P s' := by
  obtain ⟨s', hs', hp⟩ := (any_eq_true _ _).mp he
  exact ⟨s', (Reachable.init h).exec hs', of_decide_eq_true hp⟩

theorem Reachable.of_execOk (h : init s)
    (he : (LTS.execOk (fun s l => decide (ok s l)) next s ls).any (P ·) = true) :
    ∃ s', ((ofFn init next).restrict ok).Reachable s' ∧ P s' := by
  obtain ⟨s', hs', hp⟩ := (any_eq_true _ _).mp he
  exact ⟨s', (Reachable.init h).execOk hs', of_decide_eq_true hp⟩

/-- The same for a system that starts with a creation that may fail. -/
theorem Reachable.of_create
    (h : (o.bind fun s => LTS.execOk (fun s l => decide (ok s l)) next s ls).any (P ·) = true) :
    ∃ s, ((ofFn (fun s => o = some s) next).restrict ok).Reachable s ∧ P s := by
  obtain ⟨s', hs', hp⟩ := (any_eq_true _ _).mp h
  obtain ⟨s, hs, hexec⟩ := bind_eq_some_iff.mp hs'
  exact of_execOk _ _ _ s ls _ hs ((any_eq_true _ _).mpr ⟨s', hexec, hp⟩)

end Schedules

end LTS

/-! ## Folds -/

/-- A fold over different elements keeps `P` if each step at an element with `Q` does and leaves `Q` of
the others alone. -/
theorem foldl_keeps {σ α : Type*} {f : σ → α → σ} {P : σ → Prop} {Q : σ → α → Prop} {l : List α}
    (hn : l.Nodup) (hstep : ∀ s, ∀ a ∈ l, P s → Q s a → P (f s a) ∧ ∀ b, b ≠ a → Q s b → Q (f s a) b)
    {s : σ} (hP : P s) (hQ : ∀ a ∈ l, Q s a) : P (l.foldl f s) := by
  induction l generalizing s with
  | nil => exact hP
  | cons a l ih =>
    obtain ⟨ha, hn'⟩ := nodup_cons.mp hn
    obtain ⟨hP', hQ'⟩ := hstep s a mem_cons_self hP (hQ a mem_cons_self)
    exact ih hn' (fun s b hb => hstep s b (mem_cons_of_mem a hb)) hP' fun b hb =>
      hQ' b (fun he => ha (he ▸ hb)) (hQ b (mem_cons_of_mem a hb))

end MiniTree.Core
