import Mathlib.Data.Option.Defs

/-!
# Deterministic machines with outputs

A machine answers an operation with an output and its next state, or does not offer the
operation. `trace` is a whole run; two machines related step by step produce the same
outputs over every run (`trace_rel`).
-/

namespace MiniTree.Core

open Option

variable {σ τ ο ω : Type*} {step : σ → ο → Option (ω × σ)} {s : σ}

/-- The outputs of a run and the state it ends in. -/
def trace (step : σ → ο → Option (ω × σ)) : σ → List ο → Option (List ω × σ)
  | s, [] => some ([], s)
  | s, o :: os => (step s o).bind fun r => (trace step r.2 os).map fun t => (r.1 :: t.1, t.2)

/-- Same output, related states; both machines offer the operation or neither does. -/
def Agree (R : σ → τ → Prop) : Option (ω × σ) → Option (ω × τ) → Prop :=
  Option.Rel fun x y => x.1 = y.1 ∧ R x.2 y.2

theorem Agree.imp {R R' : σ → τ → Prop} (h : ∀ s a, R s a → R' s a) {x : Option (ω × σ)}
    {y : Option (ω × τ)} (hxy : Agree R x y) : Agree R' x y := by
  cases hxy with
  | none => exact .none
  | some hr => exact .some ⟨hr.1, h _ _ hr.2⟩

theorem trace_cons {o : ο} {os : List ο} {r : ω × σ} (h : step s o = some r) :
    trace step s (o :: os) = (trace step r.2 os).map fun t => (r.1 :: t.1, t.2) := by
  rw [trace, h, bind_some]

theorem trace_append {os os' : List ο} {t : List ω × σ} (h : trace step s os = some t) :
    trace step s (os ++ os') = (trace step t.2 os').map fun t' => (t.1 ++ t'.1, t'.2) := by
  induction os generalizing s t with
  | nil =>
    cases h
    simp
  | cons o os ih =>
    cases hs : step s o with
    | none => simp [trace, hs] at h
    | some r =>
      rw [trace_cons hs, map_eq_some_iff] at h
      obtain ⟨t1, h1, rfl⟩ := h
      rw [List.cons_append, trace_cons hs, ih h1, map_map]
      rfl

/-- A machine that offers every operation runs to the end. -/
theorem trace_total (f : σ → ο → ω × σ) (s : σ) (os : List ο) :
    ∃ t, trace (fun s o => some (f s o)) s os = some t := by
  induction os generalizing s with
  | nil => exact ⟨_, rfl⟩
  | cons o os ih =>
    obtain ⟨t, ht⟩ := ih (f s o).2
    exact ⟨_, by rw [trace_cons rfl, ht, map_some]⟩

/-- Machines that agree step by step agree over every run. -/
theorem trace_rel {f : σ → ο → Option (ω × σ)} {g : τ → ο → Option (ω × τ)} {R : σ → τ → Prop}
    (hstep : ∀ s a o, R s a → Agree R (f s o) (g a o)) {a : τ} (h : R s a) (os : List ο) :
    Agree R (trace f s os) (trace g a os) := by
  induction os generalizing s a with
  | nil => exact .some ⟨rfl, h⟩
  | cons o os ih =>
    have ho := hstep s a o h
    simp only [trace]
    generalize f s o = x at ho ⊢
    generalize g a o = y at ho ⊢
    cases ho with
    | none => exact .none
    | some hxy =>
      have hrest := ih hxy.2
      rw [bind_some, bind_some]
      generalize trace f _ os = u at hrest ⊢
      generalize trace g _ os = v at hrest ⊢
      cases hrest with
      | none => exact .none
      | some huv => exact .some ⟨List.cons_eq_cons.mpr ⟨hxy.1, huv.1⟩, huv.2⟩

end MiniTree.Core
