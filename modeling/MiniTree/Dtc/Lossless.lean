import MiniTree.Dtc.Overlays

/-!
# Nothing is lost

The compiler merges all root blocks first and the overlays after them, while the meaning of a source
follows the text (`lastAssigned_mergeOrder` is where the two agree).

**Results.** `losesNothing_of_clean`: a clean source compiles to a tree that has every declared node,
at each path the values last assigned, and each label at the node it was declared at.
`relabelled_node_lost` is the source whose label is given to a node that is already there: the merge
drops the label, and a later overlay on it makes up a node of its own.
-/

namespace MiniTree.Dtc

open List Option

/-! ## The order of the text -/

variable {its : List Item} {e : Effect}

namespace Effect

/-- Which property of which node is assigned. -/
def keys (e : Effect) : List (Path × String) := e.assigns.map fun a => (a.1, a.2.name)

variable {k : String}

theorem lastAssigned_eq_none {p : Path} (h : (p, k) ∉ e.keys) : e.lastAssigned p k = none := by
  unfold lastAssigned
  rw [map_eq_none_iff, List.find?_eq_none]
  intro a ha heq
  refine h (mem_map.mpr ⟨a, mem_reverse.mp ha, ?_⟩)
  rw [(of_decide_eq_true heq).1, (of_decide_eq_true heq).2]

theorem mem_keys_of_lastAssigned {p : Path} {v : DtsProperty}
    (h : e.lastAssigned p k = some v) : (p, k) ∈ e.keys := by
  refine Decidable.byContradiction fun hn => ?_
  rw [lastAssigned_eq_none hn] at h
  exact absurd h (by simp)

end Effect

/-- No root block assigns what an overlay before it has assigned. -/
def Ordered : List (Bool × Effect) → Prop
  | [] => True
  | b :: bs => (b.1 = true → ∀ f ∈ bs, f.1 = false → ∀ x ∈ b.2.keys, x ∉ f.2.keys) ∧ Ordered bs

def rootsOf (bs : List (Bool × Effect)) : Effect := concat ((bs.filter (!·.1)).map (·.2))

def overlaysOf (bs : List (Bool × Effect)) : Effect := concat ((bs.filter (·.1)).map (·.2))

section

variable {bs : List (Bool × Effect)} {d : Path × Option String}

theorem rootsOf_cons (b : Bool × Effect) :
    rootsOf (b :: bs) = if b.1 then rootsOf bs else b.2.append (rootsOf bs) := by
  unfold rootsOf
  cases hb : b.1 <;> simp [hb, concat]

theorem overlaysOf_cons (b : Bool × Effect) :
    overlaysOf (b :: bs) = if b.1 then b.2.append (overlaysOf bs) else overlaysOf bs := by
  unfold overlaysOf
  cases hb : b.1 <;> simp [hb, concat]

theorem lastAssigned_rootsOf {x : Path × String}
    (h : ∀ f ∈ bs, f.1 = false → x ∉ f.2.keys) : (rootsOf bs).lastAssigned x.1 x.2 = none := by
  induction bs with
  | nil => rfl
  | cons b bs ih =>
    have ih' := ih fun f hf => h f (mem_cons_of_mem _ hf)
    rw [rootsOf_cons]
    split
    · exact ih'
    rename_i hb
    rw [Effect.lastAssigned_append, ih',
      Effect.lastAssigned_eq_none (h b mem_cons_self (eq_false_of_ne_true hb))]
    rfl

/-- The order in which blocks are merged gives the values of the order of the text. -/
theorem lastAssigned_mergeOrder (h : Ordered bs) (p : Path)
    (k : String) : (concat (bs.map (·.2))).lastAssigned p k =
      ((rootsOf bs).append (overlaysOf bs)).lastAssigned p k := by
  induction bs with
  | nil => rfl
  | cons b bs ih =>
    have ih' := ih h.2
    rw [Effect.lastAssigned_append] at ih' ⊢
    change (b.2.append (concat (bs.map (·.2)))).lastAssigned p k = _
    rw [Effect.lastAssigned_append, ih', rootsOf_cons, overlaysOf_cons]
    split
    · rename_i hb
      rw [Effect.lastAssigned_append]
      cases hv : b.2.lastAssigned p k with
      | none => rw [or_none, or_none]
      | some v =>
        have hnone : (rootsOf bs).lastAssigned p k = none :=
          lastAssigned_rootsOf fun f hf hfr =>
            h.1 hb f hf hfr (p, k) (Effect.mem_keys_of_lastAssigned hv)
        rw [hnone, or_none, or_none]
    · rw [Effect.lastAssigned_append, Option.or_assoc]

theorem mem_decls_concat {es : List Effect} : d ∈ (concat es).decls ↔ ∃ e ∈ es, d ∈ e.decls := by
  induction es with
  | nil => simp [concat, Effect.empty]
  | cons e es ih =>
    change d ∈ e.decls ++ (concat es).decls ↔ _
    rw [mem_append, ih, exists_mem_cons_iff]

theorem mem_decls_mergeOrder (h : d ∈ (concat (bs.map (·.2))).decls) :
    d ∈ ((rootsOf bs).append (overlaysOf bs)).decls := by
  simp only [Effect.append, rootsOf, overlaysOf, mem_append, mem_decls_concat, List.mem_map,
    mem_filter] at h ⊢
  obtain ⟨e, ⟨b, hb, rfl⟩, hd⟩ := h
  cases hv : b.1 with
  | true => exact .inr ⟨_, ⟨b, ⟨hb, hv⟩, rfl⟩, hd⟩
  | false => exact .inl ⟨_, ⟨b, ⟨hb, by simp [hv]⟩, rfl⟩, hd⟩

end

theorem effect_root {it : Item} (h : it.isOverlay = false) (e : Effect) :
    it.effect e = it.effect .empty := by
  cases it with
  | root => rfl
  | namedRoot => rfl
  | overlay => exact absurd h (by simp [Item.isOverlay])

theorem rootsOf_blockEffects (seen : Effect) (src : List Item) :
    rootsOf (blockEffects seen src) = concat (rootEffects src) := by
  induction src generalizing seen with
  | nil => rfl
  | cons it src ih =>
    rw [blockEffects, rootsOf_cons, ih]
    unfold rootEffects
    cases hv : it.isOverlay with
    | true => simp [hv]
    | false => simp [hv, effect_root hv, concat]

theorem runEffect_roots (e : Effect) (h : ∀ it ∈ its, it.isOverlay = false) :
    runEffect e its = e.append (concat (its.map (·.effect .empty))) := by
  induction its generalizing e with
  | nil => exact (Effect.append_empty e).symm
  | cons it its ih =>
    rw [runEffect, effect_root (h it mem_cons_self),
      ih _ fun x hx => h x (mem_cons_of_mem _ hx), Effect.append_assoc]
    rfl

theorem runEffect_overlays (seen : Effect) (src : List Item) :
    runEffect seen (src.filter (·.isOverlay)) =
      seen.append (overlaysOf (blockEffects seen src)) := by
  induction src generalizing seen with
  | nil => exact (Effect.append_empty seen).symm
  | cons it src ih =>
    rw [blockEffects, overlaysOf_cons]
    cases hv : it.isOverlay with
    | true =>
      rw [filter_cons_of_pos hv, runEffect, ih, Effect.append_assoc]
      rfl
    | false => simpa [hv] using ih seen

/-- What the merge order says is what the blocks say, the root blocks first. -/
theorem runEffect_mergeOrder (src : List Item) : runEffect .empty (mergeOrder src) =
    (rootsOf (blocks src)).append (overlaysOf (blocks src)) := by
  have hroots : runEffect .empty (src.filter (!·.isOverlay)) = concat (rootEffects src) :=
    runEffect_roots .empty fun it hit => by simpa using (mem_filter.mp hit).2
  unfold mergeOrder blocks
  rw [runEffect_append, hroots, runEffect_overlays, rootsOf_blockEffects]

/-! ## The result -/

/-- A source in which nothing is lost: there is a root block, in the order of merging each block is
merged without loss, and no root block assigns what an overlay before it has assigned. -/
structure Clean (src : List Item) : Prop where
  root : src.any (!·.isOverlay) = true
  run : OkRun .empty (mergeOrder src)
  ordered : Ordered (blocks src)

theorem mem_labels_runEffect {l : String}
    (h : l ∈ e.labels.map (·.1) ∨ l ∈ its.flatMap Item.labels) :
    l ∈ (runEffect e its).labels.map (·.1) := by
  induction its generalizing e with
  | nil => exact h.resolve_right not_mem_nil
  | cons it its ih =>
    refine ih ?_
    rw [Effect.labels_append, map_append, mem_append]
    rcases h with h | h
    · exact .inl (.inl h)
    rw [flatMap_cons, mem_append] at h
    rcases h with h | h
    · exact .inl (.inr ((labels_subset e it).subset h))
    · exact .inr h

theorem Clean.merging {src : List Item} (h : Clean src) {s : Parse} (hs : Parsed src s) :
    Merging (runEffect .empty (src.filter (!·.isOverlay))) (src.filter (·.isOverlay))
      ⟨s.root, s.next, labelPairs s.root.2⟩ := by
  have hperm : (mergeOrder src).Perm src := by
    unfold mergeOrder
    exact perm_append_comm.trans (filter_append_perm _ src)
  have hnd : (src.flatMap Item.labels).Nodup :=
    (hperm.flatMap_right _).nodup_iff.mp h.run.nodup_labels
  refine { hs with pairs := le_rfl, keys := ?_, known := fun l hl => ?_ }
  · have hle := hs.labels
    rw [← labelPairs_keys] at hle
    exact Multiset.coe_nodup.mp (Multiset.nodup_of_le hle (Multiset.coe_nodup.mpr hnd))
  · have hle := hs.labels
    rw [← labelPairs_keys] at hle
    have hm : l ∈ src.flatMap Item.labels := Multiset.mem_coe.mp (Multiset.mem_of_le hle hl)
    rw [← (hperm.flatMap_right _).mem_iff, mergeOrder, flatMap_append, mem_append] at hm
    exact hm.imp (fun hr => mem_labels_runEffect (.inr hr)) id

theorem losesNothing_of_clean (src : List Item) (h : Clean src) : LosesNothing src := by
  obtain ⟨hroots, hovs⟩ := h.run.append
  have hs : Parsed src (src.foldl Parse.add Parse.start) := parsed src [] parsed_start hroots
  obtain ⟨c, hc, hm⟩ := (h.merging hs).overlays hovs
  rw [← runEffect_append] at hm
  change Merging (runEffect .empty (mergeOrder src)) [] c at hm
  rw [runEffect_mergeOrder] at hm
  have hkeys : ((labelPairs c.root.2).map (·.1)).Nodup :=
    Multiset.coe_nodup.mp (Multiset.nodup_of_le (Multiset.map_le_map hm.pairs)
      (Multiset.coe_nodup.mpr hm.keys))
  refine ⟨{ c with labelMap := labelPairs c.root.2 }, ?_, fun p k => ?_, fun p hp => ?_,
    fun l p hl => ?_⟩
  · have hmerge : Compiler.mergeOverlays ⟨(src.foldl Parse.add Parse.start).root,
        (src.foldl Parse.add Parse.start).next,
        labelPairs (src.foldl Parse.add Parse.start).root.2⟩ = .ok c := by
      unfold Compiler.mergeOverlays
      rw [hs.collect]
      exact hc
    unfold compile
    dsimp only
    rw [hs.hasRoot, h.root, if_pos rfl, hmerge]
  · exact (hm.refines.value p k).trans (lastAssigned_mergeOrder h.ordered p k).symm
  · obtain ⟨d, hd, rfl⟩ := mem_map.mp hp
    exact (hm.refines.node d.1).mpr
      (.inr (mem_map.mpr ⟨d, mem_decls_mergeOrder hd, rfl⟩))
  · obtain ⟨d, hd, hdl⟩ := mem_filterMap.mp hl
    obtain ⟨i, hi, hil⟩ := hm.refines.label l p
      (mem_filterMap.mpr ⟨d, mem_decls_mergeOrder hd, hdl⟩)
    exact ⟨i, hi, get_of_mem (mem_labelPairs_of_at hi hil hm.rootLabel) hkeys⟩

instance Decls.decidableSimple : (ds : Decls) → Decidable ds.Simple
  | .nil => inferInstanceAs (Decidable True)
  | .cons _ _ _ children rest =>
    haveI := children.decidableSimple
    haveI := rest.decidableSimple
    inferInstanceAs (Decidable (_ ∧ _ ∧ _ ∧ _))

instance : (it : Item) → Decidable it.Simple
  | .root .. | .overlay .. => inferInstanceAs (Decidable (Decls.Simple _))
  | .namedRoot .. => inferInstanceAs (Decidable (_ ∧ _))

instance (seen e : Effect) : Decidable (Fresh seen e) := inferInstanceAs (Decidable (_ ∧ _))

instance (seen : Effect) : (it : Item) → Decidable (it.Placed seen)
  | .root .. => inferInstanceAs (Decidable True)
  | .namedRoot .. => inferInstanceAs (Decidable True)
  | .overlay .. => inferInstanceAs (Decidable (_ → _))

instance (seen : Effect) (it : Item) : Decidable (it.Ok seen) :=
  decidable_of_iff (it.Simple ∧ Fresh seen (it.effect seen) ∧ it.Placed seen)
    ⟨fun h => ⟨h.1, h.2.1, h.2.2⟩, fun h => ⟨h.simple, h.fresh, h.placed⟩⟩

instance decidableOkRun : (seen : Effect) → (its : List Item) → Decidable (OkRun seen its)
  | _, [] => inferInstanceAs (Decidable True)
  | seen, it :: its =>
    haveI := decidableOkRun (seen.append (it.effect seen)) its
    inferInstanceAs (Decidable (_ ∧ _))

instance decidableOrdered : (bs : List (Bool × Effect)) → Decidable (Ordered bs)
  | [] => inferInstanceAs (Decidable True)
  | _ :: bs =>
    haveI := decidableOrdered bs
    inferInstanceAs (Decidable (_ ∧ _))

instance (src : List Item) : Decidable (Clean src) :=
  decidable_of_iff (src.any (!·.isOverlay) = true ∧ OkRun .empty (mergeOrder src) ∧
    Ordered (blocks src)) ⟨fun h => ⟨h.1, h.2.1, h.2.2⟩, fun h => ⟨h.root, h.run, h.ordered⟩⟩

/-- An overlay on a declared label, one on a label of that overlay, a root block after them and an
overlay on a label that is declared nowhere. -/
def boardSource : List Item := [.root [⟨"model", ["b"], [], []⟩]
    (.cons "soc" none [] (.cons "serial@0" (some "uart") [⟨"status", ["disabled"], [], []⟩] .nil
      .nil) .nil), .overlay "uart" [⟨"status", ["okay"], [], []⟩]
    (.cons "chip" (some "flash") [⟨"reg", [], [0], []⟩] .nil .nil),
   .overlay "flash" [⟨"size", [], [8], []⟩] .nil,
   .namedRoot "chosen" [⟨"console", [], [], ["uart"]⟩] .nil,
   .overlay "spi1" [⟨"reg", [], [1], []⟩] .nil]

theorem losesNothing_board : Clean boardSource ∧ LosesNothing boardSource :=
  have h : Clean boardSource := by decide +kernel
  ⟨h, losesNothing_of_clean boardSource h⟩

def compiledValue (src : List Item) (p : Path) (k : String) : Option DtsProperty :=
  match compile src with
  | .ok c => c.value p k
  | .error _ => none

/-- `/ { a {}; }; / { l: a {}; }; &l { x = <1>; };` -/
def relabelled : List Item :=
  [.root [] (.cons "a" none [] .nil .nil), .root [] (.cons "a" (some "l") [] .nil .nil),
   .overlay "l" [⟨"x", [], [1], []⟩] .nil]

theorem relabelled_node_lost :
    ¬ ∀ src : List Item, src.any (!·.isOverlay) = true → LosesNothing src := by
  intro h
  obtain ⟨c, hc, hs⟩ := h relabelled rfl
  have hv : compiledValue relabelled ["a"] "x" = c.value ["a"] "x" := by
    unfold compiledValue
    rw [hc]
  have hlost : compiledValue relabelled ["a"] "x" = none := by decide +kernel
  have hsaid : (sourceEffect relabelled).lastAssigned ["a"] "x" = some ⟨"x", [], [1], []⟩ := by
    decide +kernel
  rw [hs.value, hsaid, hlost] at hv
  exact absurd hv (by simp)

end MiniTree.Dtc
