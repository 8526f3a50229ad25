import MiniTree.Dtc.Source

/-!
# Merging a body into a tree

What a tree has of an effect (`Refines`), and that merging a body into the node at a path adds the
effect of the body below that path (`Refines.mergeAt`). The children of a body have their own effect when
no node has two children or two properties of one name (`isBody_number`): a node that is moved into the
tree as it stands shows the first of two, while the text says the last. The properties of the body itself
are set one after the other.
-/

namespace MiniTree.Dtc

open List Option Effect Forest Prod Function

/-! ## Effects -/

namespace Effect

theorem lastAssigned_append (e f : Effect) (p : Path) (k : String) :
    (e.append f).lastAssigned p k = (f.lastAssigned p k).or (e.lastAssigned p k) := by
  unfold lastAssigned append
  dsimp only
  rw [reverse_append, List.find?_append]
  cases List.find? _ f.assigns.reverse <;> rfl

theorem lastAssigned_under (b q : Path) (e : Effect) (k : String) :
    (e.under b).lastAssigned (b ++ q) k = e.lastAssigned q k := by
  unfold lastAssigned under
  dsimp only
  rw [← List.map_reverse, List.find?_map, Option.map_map]
  simp only [comp_def, List.append_cancel_left_eq]

variable {b p : Path}

theorem lastAssigned_under_of_not_prefix (hp : ¬ b <+: p) (e : Effect) (k : String) :
    (e.under b).lastAssigned p k = none := by
  unfold lastAssigned under
  dsimp only
  rw [map_eq_none_iff, List.find?_eq_none]
  intro a ha h
  obtain ⟨c, -, rfl⟩ := mem_map.mp (mem_reverse.mp ha)
  exact hp ⟨c.1, (of_decide_eq_true h).1⟩

theorem mem_declared_append {e f : Effect} {p : Path} :
    p ∈ (e.append f).declared ↔ p ∈ e.declared ∨ p ∈ f.declared := by
  simp only [declared, append, map_append, mem_append]

variable {e : Effect}

theorem mem_declared_under : p ∈ (e.under b).declared ↔ ∃ q ∈ e.declared, p = b ++ q := by
  simp only [declared, under, List.map_map, List.mem_map, comp_apply]
  constructor
  · rintro ⟨d, hd, rfl⟩
    exact ⟨d.1, ⟨d, hd, rfl⟩, rfl⟩
  · rintro ⟨q, ⟨d, hd, rfl⟩, rfl⟩
    exact ⟨d, hd, rfl⟩

theorem mem_declared_under_append {b q : Path} :
    b ++ q ∈ (e.under b).declared ↔ q ∈ e.declared := by
  simp [mem_declared_under]

theorem notMem_declared_under (hp : ¬ b <+: p) (e : Effect) : p ∉ (e.under b).declared := by
  rw [mem_declared_under]
  exact fun ⟨q, _, h⟩ => hp ⟨q, h.symm⟩

theorem labels_append (e f : Effect) : (e.append f).labels = e.labels ++ f.labels :=
  filterMap_append ..

theorem labels_under (b : Path) (e : Effect) :
    (e.under b).labels = e.labels.map fun l => (l.1, b ++ l.2) := by
  unfold labels under
  dsimp only
  rw [filterMap_map, map_filterMap]
  refine filterMap_congr fun d _ => ?_
  obtain ⟨q, _ | l⟩ := d <;> rfl

theorem mem_declared_of_label {l : String} {p : Path} (h : (l, p) ∈ e.labels) : p ∈ e.declared := by
  obtain ⟨d, hd, hm⟩ := mem_filterMap.mp h
  obtain ⟨l', -, hl⟩ := map_eq_some_iff.mp hm
  exact List.mem_map.mpr ⟨d, hd, congrArg snd hl⟩

theorem append_assoc (e f g : Effect) : (e.append f).append g = e.append (f.append g) := by
  simp only [append, List.append_assoc]

theorem append_empty (e : Effect) : e.append empty = e := by simp only [append, empty, append_nil]

end Effect

/-! ## Properties -/

theorem getProp_cons (k : String) (p : DtsProperty) (ps : List DtsProperty) :
    getProp k (p :: ps) = if p.name = k then some p else getProp k ps := by
  unfold getProp
  rw [List.find?_cons]
  by_cases hk : p.name = k <;> simp [hk]

theorem getProp_of_notMem {k : String} {ps : List DtsProperty} (h : k ∉ ps.map (·.name)) :
    getProp k ps = none := by
  simpa [getProp] using h

theorem getProp_setProp (k : String) (props : List DtsProperty) (p : DtsProperty) :
    getProp k (setProp props p) = if p.name = k then some p else getProp k props := by
  induction props with
  | nil => rw [setProp, getProp_cons]
  | cons q qs ih =>
    rw [setProp]
    split <;> rw [getProp_cons, getProp_cons] <;> grind

theorem lastProp_cons (k : String) (b : Path) (p : DtsProperty) (ps : List DtsProperty) :
    (Effect.mk [] ((p :: ps).map (b, ·))).lastAssigned b k =
      ((Effect.mk [] (ps.map (b, ·))).lastAssigned b k).or (if p.name = k then some p else none) := by
  have hsplit : Effect.mk [] ((p :: ps).map (b, ·)) =
      Effect.append ⟨[], [(b, p)]⟩ ⟨[], ps.map (b, ·)⟩ := rfl
  rw [hsplit, lastAssigned_append]
  by_cases hk : p.name = k <;> simp [Effect.lastAssigned, hk]

/-- In a merged list of properties the last one of a name wins. -/
theorem getProp_mergeProps (k : String) (b : Path) (target src : List DtsProperty) :
    getProp k (mergeProps target src) =
      ((Effect.mk [] (src.map (b, ·))).lastAssigned b k).or (getProp k target) := by
  induction src generalizing target with
  | nil => rfl
  | cons p ps ih =>
    have hstep : mergeProps target (p :: ps) = mergeProps (setProp target p) ps := rfl
    rw [hstep, ih, getProp_setProp, lastProp_cons, Option.or_assoc]
    split <;> rfl

theorem lastProp_eq_getProp (k : String) (b : Path) (props : List DtsProperty)
    (hs : (props.map (·.name)).Nodup) :
    (Effect.mk [] (props.map (b, ·))).lastAssigned b k = getProp k props := by
  induction props with
  | nil => rfl
  | cons p ps ih =>
    rw [map_cons, nodup_cons] at hs
    rw [lastProp_cons, ih hs.2, getProp_cons]
    by_cases hk : p.name = k
    · rw [getProp_of_notMem (hk ▸ hs.1)]
      simp [hk]
    · simp [hk]

/-- The properties of a body say nothing about the nodes below it. -/
theorem lastProp_below (props : List DtsProperty) (k' : String) (p : Path) (k : String) :
    (Effect.mk [] (props.map (([] : Path), ·))).lastAssigned (k' :: p) k = none := by
  unfold Effect.lastAssigned
  rw [map_eq_none_iff, List.find?_eq_none]
  intro a ha heq
  obtain ⟨x, -, rfl⟩ := mem_map.mp (mem_reverse.mp ha)
  exact absurd (of_decide_eq_true heq).1 (by simp)

/-! ## A tree that has what an effect says -/

/-- The nodes below the root are the declared paths, with the values last assigned and the labels
declared. -/
structure Refines (n : DtsNode) (e : Effect) : Prop where
  node : ∀ p, (n.at p).isSome ↔ p = [] ∨ p ∈ e.declared
  value : ∀ p k, ((n.at p).bind fun i => getProp k i.props) = e.lastAssigned p k
  label : ∀ l p, (l, p) ∈ e.labels → ∃ i, n.at p = some i ∧ i.label = some l

theorem Refines.congr {m n : DtsNode} {e : Effect} (h : Refines n e) (hat : ∀ p, m.at p = n.at p) :
    Refines m e :=
  ⟨fun p => hat p ▸ h.node p, fun p => hat p ▸ h.value p, fun l p => hat p ▸ h.label l p⟩

/-- A body: no two children of one node of one name, no two properties of one node of one name. -/
structure IsBody (s : DtsNode) (e : Effect) : Prop where
  refines : Refines s e
  distinct : s.2.Distinct Info.name
  props : ∀ p i, s.at p = some i → (i.props.map (·.name)).Nodup

theorem at_cons (k : String) (p : Path) (n : DtsNode) :
    n.at (k :: p) = (n.2.find Info.name (.node k)).bind (DtsNode.at p) :=
  infoAt_cons ..

theorem join_name (a b : Info) : (a.join b).name = a.name := rfl

theorem at_mergeNode (p : Path) (s n : DtsNode) (hs : s.2.Distinct Info.name) :
    (mergeNode s n).at p = (n.at p).merge Info.join (s.at p) :=
  infoAt_merge join_name _ s n hs

/-- Merging a body into the node at a path. -/
theorem Refines.mergeAt {n s : DtsNode} {e f : Effect} {b : Path} (hn : Refines n e)
    (hs : IsBody ({ s.1 with props := [] }, s.2) f) (hb : (n.at b).isSome)
    (hnew : ∀ l q, (l, q) ∈ f.labels → (n.at (b ++ q)) = none) :
    Refines (Forest.adjustAt Info.name (mergeNode s) (b.map .node) n)
      (e.append ((Effect.append ⟨[], s.1.props.map (([] : Path), ·)⟩ f).under b)) := by
  obtain ⟨m, hm⟩ : ∃ m, Forest.sub Info.name (b.map .node) n = some m := by
    unfold DtsNode.at Forest.infoAt at hb
    rw [isSome_map] at hb
    exact isSome_iff_exists.mp hb
  have hname : ∀ x : DtsNode, (mergeNode s x).1.name = x.1.name := fun x => rfl
  have hat : ∀ k q, DtsNode.at (k :: q) ({ s.1 with props := [] }, s.2) = s.at (k :: q) :=
    fun _ _ => rfl
  -- below `b` the two are merged, elsewhere nothing changes
  have hin : ∀ q, DtsNode.at (b ++ q) (Forest.adjustAt Info.name (mergeNode s) (b.map .node) n) =
      (n.at (b ++ q)).merge Info.join (s.at q) := by
    intro q
    unfold DtsNode.at
    rw [map_append, infoAt_adjustAt_append hname, hm, bind_some]
    have hq : Forest.infoAt Info.name (b.map .node ++ q.map .node) n = DtsNode.at q m := by
      unfold DtsNode.at Forest.infoAt
      rw [sub_append, hm, bind_some]
    rw [hq]
    exact at_mergeNode q s m hs.distinct
  have hout : ∀ p, ¬ b <+: p →
      DtsNode.at p (Forest.adjustAt Info.name (mergeNode s) (b.map .node) n) = n.at p := by
    intro p hp
    refine infoAt_adjustAt_of_not_prefix hname (fun h => hp ?_) n
    exact (prefix_map_iff_of_injective fun x y h => Name.node.inj h).mp h
  refine ⟨fun p => ?_, fun p k => ?_, fun l p hl => ?_⟩
  · rw [mem_declared_append]
    by_cases hp : b <+: p
    · obtain ⟨q, rfl⟩ := hp
      have hnil : q = [] → b ++ q = [] ∨ b ++ q ∈ e.declared := by
        rintro rfl
        rwa [append_nil, ← hn.node]
      have hsome : (s.at q).isSome ↔ q = [] ∨ q ∈ f.declared := by
        rw [← hs.refines.node]
        cases q <;> rfl
      rw [hin, isSome_merge, Bool.or_eq_true, hn.node, hsome, mem_declared_under_append,
        mem_declared_append]
      have hnone : q ∉ (Effect.mk [] (s.1.props.map (([] : Path), ·))).declared := not_mem_nil
      tauto
    · simp [hout p hp, hn.node, notMem_declared_under hp]
  · rw [lastAssigned_append, ← hn.value]
    by_cases hp : b <+: p
    · obtain ⟨q, rfl⟩ := hp
      rw [hin, lastAssigned_under, lastAssigned_append, ← hs.refines.value]
      cases q with
      | nil =>
        obtain ⟨x, hx⟩ := isSome_iff_exists.mp hb
        rw [append_nil, hx]
        exact getProp_mergeProps k [] x.props s.1.props
      | cons k' q =>
        rw [lastProp_below, or_none, hat]
        cases hsq : s.at (k' :: q) with
        | none => rw [merge_none_right, bind_none, none_or]
        | some y =>
          cases n.at (b ++ k' :: q) with
          | none => rw [merge_none_left, bind_none, or_none]
          | some x =>
            have hy := hs.props (k' :: q) y hsq
            exact (getProp_mergeProps k [] x.props y.props).trans (by rw [lastProp_eq_getProp k [] _ hy]; rfl)
    · rw [hout p hp, lastAssigned_under_of_not_prefix hp, none_or]
  · rw [labels_append, List.mem_append, labels_under, List.mem_map, labels_append] at hl
    rcases hl with hl | ⟨⟨l', q⟩, hq, heq⟩
    · obtain ⟨i, hi, hil⟩ := hn.label l p hl
      by_cases hp : b <+: p
      · obtain ⟨q, rfl⟩ := hp
        rw [hin, hi]
        cases s.at q with
        | none => exact ⟨i, rfl, hil⟩
        | some y => exact ⟨i.join y, rfl, hil⟩
      · exact ⟨i, (hout p hp).trans hi, hil⟩
    · obtain ⟨i, hi, hil⟩ := hs.refines.label l' q hq
      obtain ⟨rfl, rfl⟩ := mk.inj heq
      have hfree := hnew _ q hq
      cases q with
      | nil =>
        rw [append_nil] at hfree
        rw [hfree] at hb
        cases hb
      | cons k q => exact ⟨i, by rw [hin, hfree, ← hat, hi, merge_none_left], hil⟩

/-! ## Bodies -/

def Decls.names : Decls → List String
  | .nil => []
  | .cons name _ _ _ rest => name :: rest.names

/-- No two children of one node of one name, no two properties of one node of one name. -/
def Decls.Simple : Decls → Prop
  | .nil => True
  | .cons name _ props children rest =>
    name ∉ rest.names ∧ (props.map (·.name)).Nodup ∧ children.Simple ∧ rest.Simple

variable {ds : Decls}

theorem find_number_of_notMem {name : String} (h : name ∉ ds.names) (k : Nat) :
    (number ds k).1.find Info.name (.node name) = none := by
  induction ds generalizing k with
  | nil => rfl
  | cons name' label props children rest _ ihr =>
    rw [Decls.names, mem_cons, not_or] at h
    rw [number, Forest.find, if_neg fun hn => h.1 (Name.node.inj hn).symm]
    exact ihr h.2 _

theorem nil_notMem_declared (ds : Decls) : [] ∉ ds.effect.declared := by
  induction ds with
  | nil => exact not_mem_nil
  | cons name label props children rest _ ihr =>
    intro h
    rw [Decls.effect, mem_declared_append, mem_declared_append, mem_declared_under] at h
    rcases h with (h | ⟨q, -, h⟩) | h
    · exact absurd (mem_singleton.mp h) (by simp)
    · exact absurd h (by simp)
    · exact ihr h

/-- The properties of a node, over what its children say. -/
theorem IsBody.withProps {i : Info} {f : Forest Info} {i' : Info}
    (h : IsBody (i, f) ds.effect) (hi : i.props = []) (hp : (i'.props.map (·.name)).Nodup) :
    IsBody (i', f) (bodyEffect i'.props ds) := by
  have hat : ∀ k p, DtsNode.at (k :: p) (i', f) = DtsNode.at (k :: p) (i, f) := fun k p => rfl
  refine ⟨⟨fun p => ?_, fun p k => ?_, fun l p hl => ?_⟩, h.distinct, fun p j hj => ?_⟩
  · cases p with
    | nil => exact ⟨fun _ => .inl rfl, fun _ => rfl⟩
    | cons k p => exact (hat k p ▸ h.refines.node (k :: p))
  · have hv := h.refines.value p k
    rw [bodyEffect, lastAssigned_append, ← hv]
    cases p with
    | nil =>
      rw [lastProp_eq_getProp k [] i'.props hp]
      change getProp k i'.props = (getProp k i.props).or _
      rw [hi]
      rfl
    | cons k' p =>
      rw [lastProp_below, or_none, hat]
  · rw [bodyEffect, labels_append] at hl
    cases p with
    | nil => exact absurd (mem_declared_of_label hl) (nil_notMem_declared ds)
    | cons k p => exact hat k p ▸ h.refines.label l (k :: p) hl
  · cases p with
    | nil => exact some_inj.mp hj ▸ hp
    | cons k p => exact h.props (k :: p) j hj

theorem IsBody.cons {i a : Info} {name : String} {c rest : Forest Info} {ch ds : Decls}
    (ha : a.name = .node name) (hi : i.props = []) (hc : IsBody (a, c) (bodyEffect a.props ch))
    (hr : IsBody (i, rest) ds.effect) (hnew : rest.find Info.name (.node name) = none) :
    IsBody (i, .cons a c rest) (Decls.cons name a.label a.props ch ds).effect := by
  have heff : (Decls.cons name a.label a.props ch ds).effect =
      (Effect.append ⟨[([name], a.label)], []⟩ ((bodyEffect a.props ch).under [name])).append
        ds.effect := by simp [Decls.effect, bodyEffect, Effect.append, Effect.under]
  have hat : ∀ k p, DtsNode.at (k :: p) (i, .cons a c rest) =
      if name = k then DtsNode.at p (a, c) else DtsNode.at (k :: p) (i, rest) := by
    intro k p
    rw [at_cons, Forest.find, ha]
    by_cases hk : name = k
    · rw [if_pos hk, if_pos (congrArg _ hk), bind_some]
    · rw [if_neg hk, if_neg fun h => hk (Name.node.inj h), at_cons]
  have hnone : ∀ p, DtsNode.at (name :: p) (i, rest) = none := by
    intro p
    rw [at_cons, hnew, bind_none]
  rw [heff]
  refine ⟨⟨fun p => ?_, fun p k => ?_, fun l p hl => ?_⟩, ?_, fun p j hj => ?_⟩
  · cases p with
    | nil => exact ⟨fun _ => .inl rfl, fun _ => rfl⟩
    | cons k p =>
      have hone : k :: p ∈ (Effect.mk [([name], a.label)] []).declared ↔ k = name ∧ p = [] := by
        simp [Effect.declared]
      rw [hat, mem_declared_append, mem_declared_append, hone]
      by_cases hk : name = k
      · subst hk
        have hd := hr.refines.node (name :: p)
        rw [hnone, isSome_none] at hd
        have hu := mem_declared_under_append (b := [name]) (q := p) (e := bodyEffect a.props ch)
        rw [if_pos rfl, hc.refines.node, ← hu]
        simpa using fun h => absurd (hd.mpr (.inr h)) Bool.false_ne_true
      · have hu := notMem_declared_under (b := [name]) (p := k :: p) (by simpa using hk)
        simp [hk, hr.refines.node, hu, Ne.symm hk]
  · have hdecl : (Effect.mk [([name], a.label)] []).lastAssigned p k = none := rfl
    rw [lastAssigned_append, lastAssigned_append, hdecl, or_none, ← hr.refines.value]
    cases p with
    | nil =>
      rw [ lastAssigned_under_of_not_prefix (by simp), or_none]
      rfl
    | cons k' p =>
      rw [hat]
      by_cases hk : name = k'
      · subst hk
        rw [if_pos rfl, hnone, bind_none, none_or, hc.refines.value]
        exact (lastAssigned_under [name] p _ k).symm
      · rw [if_neg hk, lastAssigned_under_of_not_prefix, or_none]
        intro h
        exact hk (cons_prefix_cons.mp h).1
  · rw [labels_append, labels_append, mem_append, mem_append, labels_under, List.mem_map] at hl
    rcases hl with (hl | ⟨⟨l', q⟩, hq, heq⟩) | hl
    · obtain ⟨d, hd, hm⟩ := mem_filterMap.mp hl
      rw [mem_singleton.mp hd] at hm
      obtain ⟨l', hl', heq⟩ := map_eq_some_iff.mp hm
      obtain ⟨rfl, rfl⟩ := mk.inj heq
      exact ⟨a, by rw [hat, if_pos rfl]; rfl, hl'⟩
    · obtain ⟨rfl, rfl⟩ := mk.inj heq
      obtain ⟨j, hj, hjl⟩ := hc.refines.label _ q hq
      refine ⟨j, ?_, hjl⟩
      rw [singleton_append, hat, if_pos rfl, hj]
    obtain ⟨j, hj, hjl⟩ := hr.refines.label l p hl
    cases p with
    | nil => exact ⟨j, hj, hjl⟩
    | cons k p =>
      refine ⟨j, ?_, hjl⟩
      rw [hat, if_neg, hj]
      intro hk
      rw [← hk, hnone] at hj
      exact absurd hj (by simp)
  · rw [Forest.Distinct, ha]
    exact ⟨hnew, hc.distinct, hr.distinct⟩
  · cases p with
    | nil =>
      rw [← some_inj.mp hj, hi]
      exact nodup_nil
    | cons k p =>
      rw [hat] at hj
      split at hj
      · exact hc.props p j hj
      · exact hr.props (k :: p) j hj

theorem isBody_number (h : ds.Simple) (k : Nat) {i : Info} (hi : i.props = []) :
    IsBody (i, (number ds k).1) ds.effect := by
  induction ds generalizing k i with
  | nil =>
    refine ⟨⟨fun p => ?_, fun p k => ?_, fun l p hl => absurd hl not_mem_nil⟩, trivial,
      fun p j hj => ?_⟩
    · cases p with
      | nil => exact ⟨fun _ => .inl rfl, fun _ => rfl⟩
      | cons k p => exact ⟨fun h => absurd h Bool.false_ne_true, fun h => absurd h (by simp [Decls.effect, Effect.declared, Effect.empty])⟩
    · cases p with
      | nil =>
        change getProp k i.props = none
        rw [hi]
        rfl
      | cons k p => rfl
    · cases p with
      | nil =>
        rw [← some_inj.mp hj, hi]
        exact nodup_nil
      | cons k p => exact absurd hj (by simp [at_cons, number, Forest.find])
  | cons name label props children rest ihc ihr =>
    have hc := ihc h.2.2.1 (k + 1) (i := ⟨k, .node name, label, []⟩) rfl
    refine IsBody.cons rfl hi (hc.withProps rfl h.2.1)
      (ihr h.2.2.2 _ hi) (find_number_of_notMem h.1 _)

end MiniTree.Dtc
