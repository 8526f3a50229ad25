import MiniTree.Dtc.ParseRuns

/-!
# Merging the overlays

Between two overlays the map of labels has every labelled object of the tree (`Merging`), so that the
label of an overlay leads to the node of its path, and changing that object is changing the tree at
that path (`removeTop_modify`). Each overlay keeps this (`Merging.overlay`), also one for which a node
is invented, and so do all (`Merging.overlays`).
-/

namespace MiniTree.Dtc

open List Option Nat Prod
open Multiset (coe_add mem_of_le filterMap_add filterMap_le_filterMap)

/-! ## The label map -/

variable {map : List (String × Nat)} {l : String} {n r root : DtsNode} {b : Path} {e : Effect}
  {os : List Item} {c : Compiler} {rs : List DtsNode} {props : List DtsProperty} {ds : Decls}

theorem get_of_mem {x : Nat} (hm : (l, x) ∈ map)
    (hnd : (map.map (·.1)).Nodup) : LabelMap.get map l = some x := by
  unfold LabelMap.get
  have hsome : (map.reverse.find? (·.1 = l)).isSome :=
    List.find?_isSome.mpr ⟨(l, x), mem_reverse.mpr hm, decide_eq_true rfl⟩
  obtain ⟨y, hy⟩ := isSome_iff_exists.mp hsome
  have hyl : y.1 = l := of_decide_eq_true (List.find?_some hy :)
  have hym : y ∈ map := mem_reverse.mp (mem_of_find?_eq_some hy)
  have heq : y = (l, x) := inj_on_of_nodup_map hnd hym hm hyl
  rw [hy, heq]
  rfl

theorem get_of_notMem (h : l ∉ map.map (·.1)) : LabelMap.get map l = none := by
  unfold LabelMap.get
  rw [map_eq_none_iff, List.find?_eq_none]
  intro y hy heq
  exact h (mem_map.mpr ⟨y, mem_reverse.mp hy, of_decide_eq_true heq⟩)

/-- A labelled object and its label. -/
def pairOf (t : Nat × Option String) : Option (String × Nat) := t.2.map (·, t.1)

def Info.tag (i : Info) : Nat × Option String := (i.id, i.label)

theorem labelPairs_eq (f : Forest Info) :
    (↑(labelPairs f) : Multiset (String × Nat)) = (f.tags Info.tag).filterMap pairOf := by
  induction f with
  | nil => rfl
  | cons a c rest ihc ihr =>
    rw [labelPairs, Forest.tags, Multiset.filterMap_cons, filterMap_add, ← ihc, ← ihr,
      append_assoc, ← coe_add, ← coe_add]
    unfold pairOf Info.tag
    cases a.label <;> rfl

theorem labelPairs_keys (f : Forest Info) :
    (↑((labelPairs f).map (·.1)) : Multiset String) = labelsOf f := by
  induction f with
  | nil => rfl
  | cons a c rest ihc ihr =>
    rw [labelPairs, labelsOf_cons, map_append, map_append, append_assoc,
      ← coe_add, ← coe_add, ihc, ihr]
    cases a.label <;> rfl

theorem mem_labelPairs_of_at {p : Path} {i : Info} (hi : n.at p = some i)
    (hl : i.label = some l) (hroot : n.1.label = none) : (l, i.id) ∈ labelPairs n.2 := by
  obtain ⟨m, hm, rfl⟩ := map_eq_some_iff.mp hi
  have hmem : m.1.tag ∈ n.1.tag ::ₘ n.2.tags Info.tag := Forest.tag_mem_of_sub hm
  rcases Multiset.mem_cons.mp hmem with h | h
  · have := (mk.inj h).2
    rw [hl, hroot] at this
    exact absurd this (by simp)
  · rw [← Multiset.mem_coe, labelPairs_eq, Multiset.mem_filterMap]
    exact ⟨m.1.tag, h, by unfold pairOf Info.tag; rw [hl]; rfl⟩

/-! ## Between two overlays -/

/-- Between two overlays: the tree has what is merged so far, the overlays of `os` wait as the
parser made them, and the map has every labelled object of the tree. -/
structure Merging (e : Effect) (os : List Item) (c : Compiler) : Prop where
  refines : Refines c.root e
  refs : List.Forall₂ IsRef os (refs c.root.2)
  nodup : (c.root.2.tags Info.id).Nodup
  below : ∀ x ∈ c.root.2.tags Info.id, x < c.next
  rootLabel : c.root.1.label = none
  pairs : (↑(labelPairs c.root.2) : Multiset (String × Nat)) ≤ ↑c.labelMap
  keys : (c.labelMap.map (·.1)).Nodup
  known : ∀ l ∈ c.labelMap.map (·.1), l ∈ e.labels.map (·.1) ∨ l ∈ os.flatMap Item.labels

theorem Merging.get (h : Merging e os c) (hl : (l, b) ∈ e.labels) :
    ∃ i, c.root.at b = some i ∧ LabelMap.get c.labelMap l = some i.id ∧ i.label = some l := by
  obtain ⟨i, hi, hil⟩ := h.refines.label l b hl
  refine ⟨i, hi, get_of_mem ?_ h.keys, hil⟩
  exact mem_of_le h.pairs (mem_labelPairs_of_at hi hil h.rootLabel)

theorem Merging.path_ne_nil (h : Merging e os c) (hl : (l, b) ∈ e.labels) : b ≠ [] := by
  obtain ⟨i, hi, -, hil⟩ := h.get hl
  rintro rfl
  simp [← some_inj.mp hi, h.rootLabel] at hil

variable {tag : Info → τ} {τ : Type*}

theorem tags_mergeNode_le (hj : ∀ a b, tag (Info.join a b) = tag a)
    (s n : DtsNode) : tag (mergeNode s n).1 ::ₘ (mergeNode s n).2.tags tag ≤
      tag n.1 ::ₘ n.2.tags tag + s.2.tags tag := by
  have hle : (mergeNode s n).2.tags tag ≤ n.2.tags tag + s.2.tags tag :=
    Forest.tags_merge_le hj s.2 n.2
  have ht : tag (mergeNode s n).1 = tag n.1 := hj n.1 s.1
  rw [ht, Multiset.cons_add]
  exact Multiset.cons_le_cons _ hle

/-- Taking the overlay out first, and then merging it at the path of its target. -/
def mergedRoot (root : DtsNode) (r : DtsNode) (b : Path) : DtsNode :=
  Forest.adjustAt Info.name (mergeNode r) (b.map .node)
    (root.1, root.2.removeTop (·.id = r.1.id))

theorem id_adjustAt (r : DtsNode) (p : List Name) (n : DtsNode) :
    (Forest.adjustAt Info.name (mergeNode r) p n).1.id = n.1.id := by cases p <;> rfl

theorem ref_name_ne {f : Forest Info} (hr : r ∈ refs f) (hnd : (f.tags Info.id).Nodup) (k : String) :
    ∀ n ∈ f.tops, decide (n.1.id = r.1.id) = true → n.1.name ≠ .node k := by
  obtain ⟨hrt, href⟩ := mem_filter.mp hr
  intro n hn hid hname
  have h1 := Forest.lookup_of_mem_tops hn hnd
  have h2 := Forest.lookup_of_mem_tops hrt hnd
  rw [of_decide_eq_true hid, h2] at h1
  rw [some_inj.mp h1, hname] at href
  exact absurd href Bool.false_ne_true

theorem removeTop_modify {i : Info} (hr : r ∈ refs root.2)
    (hnd : (root.2.tags Info.id).Nodup) (hi : root.at b = some i) (hb : b ≠ []) :
    (root.1, (root.2.modify (·.id = i.id) (mergeNode r)).removeTop (·.id = r.1.id)) =
      mergedRoot root r b := by
  obtain ⟨m, hm, rfl⟩ := map_eq_some_iff.mp hi
  obtain ⟨k, b, rfl⟩ := exists_cons_of_ne_nil hb
  have hmod := Forest.modify_eq_adjustAt (g := mergeNode r) hm hnd
  have hadj : root.2.modify (·.id = m.1.id) (mergeNode r) = root.2.adjust Info.name (.node k)
        (Forest.adjustAt Info.name (mergeNode r) (b.map .node)) := congrArg snd hmod
  rw [hadj, Forest.removeTop_adjust (ref_name_ne hr hnd k)]
  · rfl
  · intro n
    rw [id_adjustAt]

theorem at_removeTop (hr : r ∈ refs root.2) (hnd : (root.2.tags Info.id).Nodup)
    (p : Path) : DtsNode.at p (root.1, root.2.removeTop (·.id = r.1.id)) = root.at p := by
  cases p with
  | nil => rfl
  | cons k p => rw [at_cons, at_cons, Forest.find_removeTop (ref_name_ne hr hnd k)]

theorem tags_mergedRoot_le (hj : ∀ a b, tag (Info.join a b) = tag a)
    (hr : r ∈ refs root.2) (hnd : (root.2.tags Info.id).Nodup)
    (hb : b ≠ []) : (mergedRoot root r b).2.tags tag ≤ root.2.tags tag := by
  obtain ⟨k, b, rfl⟩ := exists_cons_of_ne_nil hb
  have hsplit : (root.2.removeTop (·.id = r.1.id)).tags tag + tag r.1 ::ₘ r.2.tags tag =
      root.2.tags tag := Forest.tags_removeTop (mem_filter.mp hr).1 hnd
  calc
    (mergedRoot root r (k :: b)).2.tags tag ≤
        (root.2.removeTop (·.id = r.1.id)).tags tag + r.2.tags tag :=
      Forest.tags_adjust_le (Forest.tags_adjustAt_le (tags_mergeNode_le hj r) _) _
    _ ≤ (root.2.removeTop (·.id = r.1.id)).tags tag + tag r.1 ::ₘ r.2.tags tag :=
      add_le_add le_rfl (Multiset.le_cons_self _ _)
    _ = root.2.tags tag := hsplit

theorem refs_mergedRoot (hr : refs root.2 = r :: rs) (hnd : (root.2.tags Info.id).Nodup) (hb : b ≠ []) :
    refs (mergedRoot root r b).2 = rs := by
  obtain ⟨k, b, rfl⟩ := exists_cons_of_ne_nil hb
  have hadj : refs (mergedRoot root r (k :: b)).2 = refs (root.2.removeTop (·.id = r.1.id)) :=
    Forest.filter_tops_adjust rfl (fun n => by cases b <;> rfl) _
  have hids : ((r :: rs).map fun n => n.1.id).Nodup := by
    rw [← hr]
    exact (Forest.nodup_tops hnd).sublist (filter_sublist.map _)
  have hkeep : ∀ n ∈ rs, n.1.id ≠ r.1.id := by
    intro n hn hid
    exact (nodup_cons.mp hids).1 (mem_map.mpr ⟨n, hn, hid⟩)
  rw [hadj]
  unfold refs
  rw [Forest.tops_removeTop, filter_comm]
  change (refs root.2).filter _ = rs
  rw [hr, filter_cons_of_neg (by simp), filter_eq_self]
  intro n hn
  simpa using hkeep n hn

theorem isBody_of_isRef
    (hr : IsRef (.overlay l props ds) r) (hs : (Item.overlay l props ds).Simple) :
    IsBody ({ r.1 with props := [] }, r.2) ds.effect := by
  obtain ⟨-, -, k, hf⟩ := hr
  rw [hf]
  exact isBody_number hs k rfl

/-- An overlay whose label is merged: the code reaches the node of that path. -/
theorem Merging.step (h : Merging e (.overlay l props ds :: os) c) (hr : Dtc.refs c.root.2 = r :: rs)
    (hs : (Item.overlay l props ds).Simple) (hl : (l, b) ∈ e.labels)
    (hnew : ∀ l' q, (l', q) ∈ ds.effect.labels → b ++ q ∉ e.declared) :
    Merging (e.append ((bodyEffect props ds).under b)) os { c with root := mergedRoot c.root r b } := by
  obtain ⟨i, hi, -, hil⟩ := h.get hl
  have hb := h.path_ne_nil hl
  have hmem : r ∈ Dtc.refs c.root.2 := hr ▸ mem_cons_self
  have hrefs := h.refs
  rw [hr, forall₂_cons] at hrefs
  have hids : (mergedRoot c.root r b).2.tags Info.id ≤ c.root.2.tags Info.id :=
    tags_mergedRoot_le join_id hmem h.nodup hb
  have htags : (mergedRoot c.root r b).2.tags Info.tag ≤ c.root.2.tags Info.tag :=
    tags_mergedRoot_le (fun _ _ => rfl) hmem h.nodup hb
  have hroot : (mergedRoot c.root r b).1.label = c.root.1.label := by
    obtain ⟨k, b, rfl⟩ := exists_cons_of_ne_nil hb
    rfl
  refine ⟨?_, ?_, Multiset.nodup_of_le hids h.nodup, fun x hx => ?_, hroot.trans h.rootLabel, ?_,
    h.keys, fun l' hl' => ?_⟩
  · have hout : Refines (c.root.1, c.root.2.removeTop (·.id = r.1.id)) e :=
      h.refines.congr (at_removeTop hmem h.nodup)
    have hprops : r.1.props = props := hrefs.1.2.1
    unfold bodyEffect
    rw [← hprops]
    refine hout.mergeAt (isBody_of_isRef hrefs.1 hs) ?_ fun l' q hq => ?_
    · rw [at_removeTop hmem h.nodup, hi]
      rfl
    · rw [← not_isSome_iff_eq_none, hout.node, not_or]
      exact ⟨by simp [hb], hnew l' q hq⟩
  · exact refs_mergedRoot hr h.nodup hb ▸ hrefs.2
  · exact h.below x (mem_of_le hids hx)
  · refine le_trans ?_ h.pairs
    rw [labelPairs_eq, labelPairs_eq]
    exact filterMap_le_filterMap _ htags
  · rw [Effect.labels_append, List.map_append, List.mem_append, Effect.labels_under, List.map_map,
      bodyEffect_labels]
    rcases h.known l' hl' with hk | hk
    · exact .inl (.inl hk)
    rw [flatMap_cons, mem_append] at hk
    rcases hk with hk | hk
    · exact .inl (.inr hk)
    · exact .inr hk

/-! ### A label that is not declared -/

/-- The invented node, as a body that is merged into the root. -/
def inventedBody (l : String) (k : Nat) : DtsNode := (⟨k, .node "", none, []⟩,
    if l = "soc" then .cons ⟨k, .node "soc", some "soc", []⟩ .nil .nil
    else .cons ⟨k, .node "soc", none, []⟩ (.cons ⟨k, .node l, some l, []⟩ .nil .nil) .nil)

theorem isBody_invented (l : String) (k : Nat) : IsBody (inventedBody l k) (inventedEffect l) := by
  have hnil : ∀ i : Info, i.props = [] → IsBody (i, .nil) Decls.nil.effect := fun i hi =>
    @isBody_number .nil trivial k i hi
  have hbody : ∀ i : Info, i.props = [] → IsBody (i, .nil) (bodyEffect i.props .nil) := fun i hi =>
    (hnil i hi).withProps hi (hi ▸ nodup_nil)
  unfold inventedBody inventedEffect
  split
  · exact IsBody.cons rfl rfl (hbody _ rfl) (hnil _ rfl) rfl
  have hin : IsBody (⟨k, .node "soc", none, []⟩, .cons ⟨k, .node l, some l, []⟩ .nil .nil)
      (Decls.cons l (some l) [] .nil .nil).effect :=
    IsBody.cons rfl rfl (hbody _ rfl) (hnil _ rfl) rfl
  exact IsBody.cons (a := ⟨k, .node "soc", none, []⟩) rfl rfl (hin.withProps rfl nodup_nil)
    (hnil _ rfl) rfl

theorem labels_invented (l : String) : (inventedEffect l).labels = [(l, inventedPath l)] := by
  unfold inventedPath inventedEffect
  by_cases hl : l = "soc"
  · rw [if_pos hl, if_pos hl, hl]
    rfl
  · rw [if_neg hl, if_neg hl]
    rfl

theorem mem_invented (l : String) : (l, inventedPath l) ∈ (inventedEffect l).labels := by
  rw [labels_invented]
  exact mem_singleton.mpr rfl

theorem inventedPath_ne_nil (l : String) : inventedPath l ≠ [] := by
  unfold inventedPath
  split <;> simp

/-- Nothing is invented below the invented node. -/
theorem append_invented {q : Path}
    (h : inventedPath l ++ q ∈ (inventedEffect l).declared) : q = [] := by
  unfold inventedPath inventedEffect at h
  split at h
  · exact (List.cons.inj (mem_singleton.mp h)).2
  · rcases mem_cons.mp h with h | h
    · exact absurd h (by simp)
    · exact (List.cons.inj (List.cons.inj (mem_singleton.mp h)).2).2

theorem at_singleton (k : String) (n : DtsNode) :
    n.at [k] = (n.2.find Info.name (.node k)).map (·.1) := by
  rw [at_cons]
  cases n.2.find Info.name (.node k) <;> rfl

/-- What is invented in a tree without a node at that path is a merge of that body, and one object
more. -/
theorem invent_root (hnew : c.root.at (inventedPath l) = none)
    (hsoc : l = "soc" ∨ (c.root.at ["soc"]).isSome) :
    (c.invent l).root = mergeNode (inventedBody l c.next) c.root ∧
      (c.invent l).next = c.next + 1 ∧ (c.invent l).labelMap = c.labelMap ++ [(l, c.next)] ∧
      refs (c.invent l).root.2 = refs c.root.2 ∧
      ∀ (tag : Info → Nat × Option String), (c.invent l).root.2.tags tag ≤
        c.root.2.tags tag + {tag ⟨c.next, .node l, some l, []⟩} := by
  have hjoin : c.root.1.join (inventedBody l c.next).1 = c.root.1 := rfl
  by_cases hl : l = "soc"
  · subst hl
    have hnone : c.root.2.find Info.name (.node "soc") = none :=
      map_eq_none_iff.mp ((at_singleton "soc" c.root).symm.trans hnew)
    refine ⟨?_, rfl, rfl, ?_, fun tag => ?_⟩
    · unfold mergeNode Forest.mergeNode
      rw [hjoin]
      unfold Compiler.invent inventedBody
      rw [if_pos rfl, if_pos rfl]
      dsimp only
      rw [Forest.merge, Forest.merge, hnone]
      rfl
    · unfold Compiler.invent refs
      rw [if_pos rfl]
      dsimp only
      rw [Forest.tops_snoc, filter_append]
      exact append_nil _
    · unfold Compiler.invent
      rw [if_pos rfl]
      dsimp only
      rw [Forest.tags_snoc]
      rfl
  obtain ⟨n, hn⟩ : ∃ n, c.root.2.find Info.name (.node "soc") = some n := by
    have hsome := hsoc.resolve_left hl
    rw [at_cons, isSome_bind] at hsome
    exact isSome_iff_exists.mp (isSome_of_any hsome)
  have hnone : n.2.find Info.name (.node l) = none := by
    rw [inventedPath, if_neg hl, at_cons, hn, bind_some, at_singleton] at hnew
    exact map_eq_none_iff.mp hnew
  have hinv : c.invent l =
      { root := (c.root.1, c.root.2.adjust Info.name (.node "soc") fun n =>
          (n.1, n.2.snoc (⟨c.next, .node l, some l, []⟩, .nil)))
        next := c.next + 1
        labelMap := c.labelMap ++ [(l, c.next)] } := by
    unfold Compiler.invent DtsNode.findChild
    rw [if_neg hl, hn, isSome_some, if_pos rfl]
  rw [hinv]
  refine ⟨?_, rfl, rfl, ?_, fun tag => ?_⟩
  · unfold mergeNode Forest.mergeNode
    rw [hjoin]
    unfold inventedBody
    rw [if_neg hl]
    dsimp only
    rw [Forest.merge, Forest.merge, hn, isSome_some, if_pos rfl]
    refine congrArg _ (Forest.adjust_congr hn ?_)
    rw [Forest.merge, Forest.merge, hnone]
    rfl
  · have hk : Name.isRef (.node "soc") = false := rfl
    refine Forest.filter_tops_adjust hk ?_ _
    exact fun _ => rfl
  · refine Forest.tags_adjust_le (fun m => ?_) _
    rw [Forest.tags_snoc, Multiset.cons_add]
    exact le_refl _

theorem Merging.invent (h : Merging e os c)
    (hl : l ∉ e.labels.map (·.1)) (hlater : l ∉ os.flatMap Item.labels)
    (hnew : inventedPath l ∉ e.declared) (hsoc : l = "soc" ∨ ["soc"] ∈ e.declared) :
    Merging (e.append (inventedEffect l)) os (c.invent l) ∧
      Dtc.refs (c.invent l).root.2 = Dtc.refs c.root.2 ∧ (l, c.next) ∈ (c.invent l).labelMap := by
  have hne : inventedPath l ≠ [] := inventedPath_ne_nil l
  have hat : c.root.at (inventedPath l) = none := by
    rw [← not_isSome_iff_eq_none, h.refines.node]
    exact fun ho => ho.elim hne hnew
  have hsoc' : l = "soc" ∨ (c.root.at ["soc"]).isSome :=
    hsoc.imp id fun hd => (h.refines.node _).mpr (.inr hd)
  obtain ⟨hroot, hnext, hmap, hrefs, htags⟩ := invent_root hat hsoc'
  have hids : (c.invent l).root.2.tags Info.id ≤ c.root.2.tags Info.id + {c.next} := by
    have hle := Multiset.map_le_map (htags Info.tag) (f := fst)
    rw [Multiset.map_add, Forest.tags_map, Forest.tags_map] at hle
    exact hle
  have hkeys : l ∉ c.labelMap.map (·.1) := fun hk => (h.known l hk).elim hl hlater
  refine ⟨⟨?_, hrefs ▸ h.refs, ?_, fun x hx => ?_, ?_, ?_, ?_, fun l' hl' => ?_⟩, hrefs, ?_⟩
  · rw [hroot]
    have hfree : ∀ l' q, (l', q) ∈ (inventedEffect l).labels → c.root.at ([] ++ q) = none := by
      intro l' q hq
      rw [labels_invented, mem_singleton] at hq
      rw [nil_append, (mk.inj hq).2, hat]
    have hm : Refines _ (e.append ((inventedEffect l).under [])) :=
      h.refines.mergeAt (s := inventedBody l c.next) (isBody_invented l c.next) rfl hfree
    have hunder : (inventedEffect l).under [] = inventedEffect l := by simp [Effect.under]
    rwa [hunder] at hm
  · refine Multiset.nodup_of_le hids (Multiset.nodup_add.mpr ⟨h.nodup, Multiset.nodup_singleton _, ?_⟩)
    rw [Multiset.disjoint_singleton]
    exact fun hx => absurd (h.below _ hx) (lt_irrefl _)
  · rw [hnext]
    rcases Multiset.mem_add.mp (mem_of_le hids hx) with hx | hx
    · exact lt_succ_of_lt (h.below x hx)
    · rw [Multiset.mem_singleton.mp hx]
      exact lt_succ_self _
  · rw [hroot]
    exact h.rootLabel
  · rw [hmap, labelPairs_eq, ← coe_add]
    refine (filterMap_le_filterMap _ (htags Info.tag)).trans ?_
    rw [filterMap_add, ← labelPairs_eq]
    exact add_le_add h.pairs le_rfl
  · rw [hmap, map_append, nodup_append]
    refine ⟨h.keys, nodup_singleton _, fun x hx y hy heq => ?_⟩
    have hxl : x = l := heq.trans (mem_singleton.mp hy)
    exact hkeys (hxl ▸ hx)
  · rw [hmap, map_append, mem_append] at hl'
    rw [Effect.labels_append, map_append, mem_append]
    rcases hl' with hl' | hl'
    · exact (h.known l' hl').imp .inl id
    · rw [mem_singleton.mp hl']
      exact .inl (.inr (mem_map.mpr ⟨_, mem_invented l, rfl⟩))
  · rw [hmap]
    exact mem_append_right _ (mem_singleton.mpr rfl)

/-! ## Runs -/

theorem labelPath_mem (h : e.labelPath l = some b) : (l, b) ∈ e.labels := by
  obtain ⟨x, hx, rfl⟩ := map_eq_some_iff.mp h
  have hl := List.find?_some hx
  rw [← of_decide_eq_true hl]
  exact mem_of_find?_eq_some hx

theorem labelPath_none (h : e.labelPath l = none) : l ∉ e.labels.map (·.1) := by
  intro hm
  obtain ⟨x, hx, rfl⟩ := mem_map.mp hm
  have hnone := List.find?_eq_none.mp (map_eq_none_iff.mp h) x hx
  exact hnone (decide_eq_true rfl)

theorem target_eq {t : Nat} (h : LabelMap.get c.labelMap l = some t) : c.target l = (c, t) := by
  unfold Compiler.target
  rw [h]

/-- One overlay of the code: the target is the node of the label's path, and it is in the tree. -/
theorem mergeOverlay_eq {c' : Compiler} {t : Nat} (hnd : (c.root.2.tags Info.id).Nodup)
    (hr : r ∈ Dtc.refs c.root.2) (hname : r.1.name = .ref l) (ht : c.target l = (c', t))
    (h : Merging e os c') (hr' : r ∈ Dtc.refs c'.root.2) (hl : (l, b) ∈ e.labels)
    (hget : LabelMap.get c'.labelMap l = some t) :
    c.mergeOverlay r.1.id = .ok { c' with root := mergedRoot c'.root r b } := by
  obtain ⟨i, hi, hgeti, hil⟩ := h.get hl
  have hti : t = i.id := some_inj.mp (hget.symm.trans hgeti)
  have hb := h.path_ne_nil hl
  have hmem : i.id ∈ c'.root.2.tags Info.id := by
    have hp := mem_labelPairs_of_at hi hil h.rootLabel
    rw [← Multiset.mem_coe, labelPairs_eq, Multiset.mem_filterMap] at hp
    obtain ⟨x, hx, hxp⟩ := hp
    obtain ⟨l', -, heq⟩ := map_eq_some_iff.mp hxp
    have hids := Multiset.mem_map_of_mem fst hx
    rw [Forest.tags_map] at hids
    exact (mk.inj heq).2 ▸ hids
  obtain ⟨m, hm⟩ := isSome_iff_exists.mp (Forest.lookup_isSome hmem)
  unfold Compiler.mergeOverlay
  rw [Forest.lookup_of_mem_tops (mem_filter.mp hr).1 hnd]
  dsimp only
  rw [hname]
  dsimp only
  rw [ht]
  dsimp only
  rw [hti, hm]
  dsimp only
  rw [removeTop_modify hr' h.nodup hi hb]

theorem Merging.overlay {o : Item} (h : Merging e (o :: os) c) (hr : Dtc.refs c.root.2 = r :: rs)
    (hok : OkRun e (o :: os)) :
    ∃ c', c.mergeOverlay r.1.id = .ok c' ∧ Merging (e.append (o.effect e)) os c' ∧
      Dtc.refs c'.root.2 = rs := by
  have hrefs := h.refs
  rw [hr, forall₂_cons] at hrefs
  cases o with
  | root props ds | namedRoot name props ds => exact hrefs.1.elim
  | overlay l props ds =>
    have hmem : r ∈ Dtc.refs c.root.2 := hr ▸ mem_cons_self
    have hname : r.1.name = .ref l := hrefs.1.1
    obtain ⟨hsimple, hfresh, hplaced⟩ := hok.1
    cases hlp : e.labelPath l with
    | some b =>
      have heff : (Item.overlay l props ds).effect e = (bodyEffect props ds).under b := by
        rw [Item.effect, hlp]
      have hl := labelPath_mem hlp
      obtain ⟨i, hi, hget, hil⟩ := h.get hl
      have hnew : ∀ l' q, (l', q) ∈ ds.effect.labels → b ++ q ∉ e.declared := by
        intro l' q hq
        refine (hfresh.2 (l', b ++ q) ?_).2
        rw [heff, Effect.labels_under, bodyEffect_labels]
        exact mem_map.mpr ⟨(l', q), hq, rfl⟩
      rw [heff]
      exact ⟨_, mergeOverlay_eq h.nodup hmem hname (target_eq hget) h hmem hl hget,
        h.step hr hsimple hl hnew, refs_mergedRoot hr h.nodup (h.path_ne_nil hl)⟩
    | none =>
      have heff : (Item.overlay l props ds).effect e = (inventedEffect l).append
          ((bodyEffect props ds).under (inventedPath l)) := by rw [Item.effect, hlp]
      have hlabels : (((Item.overlay l props ds).effect e).labels) = (inventedEffect l).labels ++
          ds.effect.labels.map fun x => (x.1, inventedPath l ++ x.2) := by
        rw [heff, Effect.labels_append, Effect.labels_under, bodyEffect_labels]
      have hmeml : (l, inventedPath l) ∈ ((Item.overlay l props ds).effect e).labels := by
        rw [hlabels]
        exact mem_append_left _ (mem_invented l)
      have hlater : l ∉ (Item.overlay l props ds :: os).flatMap Item.labels := by
        intro hm
        rw [flatMap_cons, mem_append] at hm
        rcases hm with hm | hm
        · have hn := hfresh.1
          rw [hlabels, List.map_append, List.map_map, List.nodup_append] at hn
          exact hn.2.2 l (mem_map.mpr ⟨_, mem_invented l, rfl⟩) l hm rfl
        · refine hok.2.fresh_label hm ?_
          rw [Effect.labels_append, map_append]
          exact mem_append_right _ (mem_map.mpr ⟨_, hmeml, rfl⟩)
      obtain ⟨h', hrefs', hin⟩ := h.invent (labelPath_none hlp) hlater (hfresh.2 _ hmeml).2
        (hplaced hlp)
      have hl : (l, inventedPath l) ∈ (e.append (inventedEffect l)).labels := by
        rw [Effect.labels_append]
        exact mem_append_right _ (mem_invented l)
      have hget : LabelMap.get (c.invent l).labelMap l = some c.next := get_of_mem hin h'.keys
      have htarget : c.target l = (c.invent l, c.next) := by
        have hnone : LabelMap.get c.labelMap l = none :=
          get_of_notMem fun hk => (h.known l hk).elim (labelPath_none hlp) hlater
        unfold Compiler.target
        rw [hnone]
      have hnew : ∀ l' q, (l', q) ∈ ds.effect.labels →
          inventedPath l ++ q ∉ (e.append (inventedEffect l)).declared := by
        intro l' q hq hd
        have hbody : (l', inventedPath l ++ q) ∈ ((Item.overlay l props ds).effect e).labels := by
          rw [hlabels]
          exact mem_append_right _ (mem_map.mpr ⟨(l', q), hq, rfl⟩)
        rcases Effect.mem_declared_append.mp hd with hd | hd
        · exact (hfresh.2 _ hbody).2 hd
        · refine nil_notMem_declared ds ?_
          rw [← append_invented hd]
          exact Effect.mem_declared_of_label hq
      have hr' : Dtc.refs (c.invent l).root.2 = r :: rs := hrefs'.trans hr
      have hne : inventedPath l ≠ [] := inventedPath_ne_nil l
      rw [heff, ← Effect.append_assoc]
      exact ⟨_, mergeOverlay_eq h.nodup hmem hname htarget h' (hr' ▸ mem_cons_self) hl hget,
        h'.step hr' hsimple hl hnew, refs_mergedRoot hr' h'.nodup hne⟩

theorem Merging.overlays (h : Merging e os c)
    (hok : OkRun e os) : ∃ c', ((Dtc.refs c.root.2).map (·.1.id)).foldlM Compiler.mergeOverlay c =
      Except.ok c' ∧ Merging (runEffect e os) [] c' := by
  induction os generalizing e c with
  | nil =>
    have hnil : Dtc.refs c.root.2 = [] := forall₂_nil_left_iff.mp h.refs
    rw [hnil]
    exact ⟨c, rfl, h⟩
  | cons o os ih =>
    obtain ⟨r, rs, -, -, hr⟩ := forall₂_cons_left_iff.mp h.refs
    obtain ⟨c1, hc1, h1, hrs⟩ := h.overlay hr hok
    obtain ⟨c', hrun, h'⟩ := ih h1 hok.2
    refine ⟨c', ?_, h'⟩
    rw [hr, map_cons, foldlM_cons, hc1, ← hrs]
    exact hrun

end MiniTree.Dtc
