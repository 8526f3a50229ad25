import MiniTree.Dtc.Merge

/-!
# The blocks of a source and the parser

When a block is merged without loss (`Item.Ok`): no node of its body has two children of one name and no
node below it two properties of one name, its labels are new and so are the nodes that have them, and an overlay on a
label that is not declared finds a `/soc` to put its node in. After the parser the tree has what the
root blocks say, and the overlays wait as children of the root (`Parsed`, `parsed`).
-/

namespace MiniTree.Dtc

open List Nat
open Multiset (mem_add coe_add nodup_add filterMap_add)
open Effect (labels_append labels_under under)

/-! ## Blocks that are merged without loss -/

namespace Item

def decls : Item → Decls
  | .root _ children => children
  | .namedRoot _ _ children => children
  | .overlay _ _ children => children

def labels (it : Item) : List String := it.decls.effect.labels.map (·.1)

/-- No node of the body has two children of one name, and none that is moved as it stands two properties
of one name; those of a root block and of an overlay are set one after the other. -/
def Simple : Item → Prop
  | .namedRoot _ props children => children.Simple ∧ (props.map (·.name)).Nodup
  | .root _ children | .overlay _ _ children => children.Simple

/-- An overlay on a label that is not declared makes a node in a `/soc` that is there. -/
def Placed (seen : Effect) : Item → Prop
  | .overlay l _ _ => seen.labelPath l = none → l = "soc" ∨ ["soc"] ∈ seen.declared
  | _ => True

end Item

/-- Each label is new, and so is the path of the node that has it. -/
def Fresh (seen e : Effect) : Prop := (e.labels.map (·.1)).Nodup ∧
    ∀ x ∈ e.labels, x.1 ∉ seen.labels.map (·.1) ∧ x.2 ∉ seen.declared

/-- A block that is merged after `seen` without loss. -/
structure Item.Ok (seen : Effect) (it : Item) : Prop where
  simple : it.Simple
  fresh : Fresh seen (it.effect seen)
  placed : it.Placed seen

def OkRun (seen : Effect) : List Item → Prop
  | [] => True
  | it :: its => it.Ok seen ∧ OkRun (seen.append (it.effect seen)) its

def runEffect (seen : Effect) : List Item → Effect
  | [] => seen
  | it :: its => runEffect (seen.append (it.effect seen)) its

/-- The blocks in the order in which they are merged. -/
def mergeOrder (src : List Item) : List Item :=
  src.filter (!·.isOverlay) ++ src.filter (·.isOverlay)

theorem bodyEffect_labels (props : List DtsProperty) (ds : Decls) :
    (bodyEffect props ds).labels = ds.effect.labels := labels_append ..

theorem namedRoot_labels (name : String) (props : List DtsProperty) (ds : Decls) :
    (Decls.cons name none props ds .nil).effect.labels.map (·.1) = ds.effect.labels.map (·.1) := by
  rw [Decls.effect, labels_append, labels_append, labels_under]
  change (List.map _ ds.effect.labels ++ []).map _ = _
  rw [append_nil, map_map]
  rfl

theorem labels_subset (seen : Effect) (it : Item) :
    it.labels.Sublist ((it.effect seen).labels.map (·.1)) := by
  have hunder : ∀ (b : Path) (props : List DtsProperty) (ds : Decls),
      (((bodyEffect props ds).under b).labels.map (·.1)) = ds.effect.labels.map (·.1) := by
    intro b props ds
    rw [labels_under, map_map, bodyEffect_labels]
    rfl
  unfold Item.labels Item.effect
  cases it with
  | root props ds => rw [bodyEffect_labels, Item.decls]
  | namedRoot name props ds => rw [namedRoot_labels, Item.decls]
  | overlay l props ds =>
    dsimp only [Item.decls]
    split
    · rw [hunder]
    · rw [labels_append, map_append, hunder]
      exact sublist_append_right _ _

variable {seen : Effect}
variable {its : List Item} {it : Item}

/-- Labels that later blocks declare are new. -/
theorem OkRun.fresh_label (h : OkRun seen its) {l : String}
    (hl : l ∈ its.flatMap Item.labels) : l ∉ seen.labels.map (·.1) := by
  induction its generalizing seen with
  | nil => exact absurd hl not_mem_nil
  | cons it its ih =>
    rw [flatMap_cons, mem_append] at hl
    rcases hl with hl | hl
    · obtain ⟨⟨l', p⟩, hp, rfl⟩ := mem_map.mp ((labels_subset seen it).subset hl)
      exact (h.1.fresh.2 (l', p) hp).1
    intro hs
    refine ih h.2 hl ?_
    rw [labels_append, map_append]
    exact mem_append_left _ hs

theorem OkRun.nodup_labels (h : OkRun seen its) : (its.flatMap Item.labels).Nodup := by
  induction its generalizing seen with
  | nil => exact nodup_nil
  | cons it its ih =>
    rw [flatMap_cons, nodup_append]
    refine ⟨h.1.fresh.1.sublist (labels_subset seen it), ih h.2, fun l hl l' hl' heq => ?_⟩
    refine h.2.fresh_label hl' ?_
    rw [← heq, labels_append, map_append]
    exact mem_append_right _ ((labels_subset seen it).subset hl)

theorem OkRun.append {xs ys : List Item} (h : OkRun seen (xs ++ ys)) :
    OkRun seen xs ∧ OkRun (runEffect seen xs) ys := by
  induction xs generalizing seen with
  | nil => exact ⟨trivial, h⟩
  | cons x xs ih => exact ⟨⟨h.1, (ih h.2).1⟩, (ih h.2).2⟩

/-! ## Objects -/

theorem number_le (ds : Decls) (k : Nat) : k ≤ (number ds k).2 := by
  induction ds generalizing k with
  | nil => exact le_refl _
  | cons name label props children rest ihc ihr =>
    exact le_trans (le_of_succ_le (ihc (k + 1))) (ihr _)

theorem number_ids (ds : Decls) (k : Nat) : ((number ds k).1.tags Info.id).Nodup ∧
      ∀ x ∈ (number ds k).1.tags Info.id, k ≤ x ∧ x < (number ds k).2 := by
  induction ds generalizing k with
  | nil => exact ⟨Multiset.nodup_zero, fun x hx => absurd hx (Multiset.notMem_zero x)⟩
  | cons name label props children rest ihc ihr =>
    obtain ⟨hcn, hcb⟩ := ihc (k + 1)
    obtain ⟨hrn, hrb⟩ := ihr (number children (k + 1)).2
    have hle := number_le children (k + 1)
    have hle' := number_le rest (number children (k + 1)).2
    rw [number]
    dsimp only
    rw [Forest.tags, Multiset.nodup_cons, nodup_add, Multiset.disjoint_left]
    refine ⟨⟨fun h => ?_, hcn, hrn, @fun x hx hx' => ?_⟩, fun x hx => ?_⟩
    · rcases mem_add.mp h with h | h
      · exact absurd (hcb _ h).1 (by simp)
      · have := (hrb _ h).1
        dsimp only at this
        omega
    · have := (hcb x hx).2
      have := (hrb x hx').1
      omega
    · rcases Multiset.mem_cons.mp hx with h | h
      · dsimp only at h
        omega
      rcases mem_add.mp h with h | h
      · have := hcb x h
        omega
      · have := hrb x h
        omega

def labelsOf (f : Forest Info) : Multiset String := (f.tags Info.label).filterMap id

theorem labelsOf_cons (a : Info) (c rest : Forest Info) :
    labelsOf (.cons a c rest) = ↑a.label.toList + (labelsOf c + labelsOf rest) := by
  unfold labelsOf
  rw [Forest.tags, Multiset.filterMap_cons, ← filterMap_add]
  cases a.label <;> rfl

theorem labelsOf_number (ds : Decls) (k : Nat) :
    labelsOf (number ds k).1 = ↑(ds.effect.labels.map (·.1)) := by
  induction ds generalizing k with
  | nil => rfl
  | cons name label props children rest ihc ihr =>
    have hlab : (Decls.cons name label props children rest).effect.labels.map (·.1) =
        label.toList ++ (children.effect.labels.map (·.1) ++ rest.effect.labels.map (·.1)) := by
      rw [Decls.effect, labels_append, labels_append, labels_under,
        map_append, map_append, map_map, append_assoc]
      cases label <;> rfl
    rw [hlab, ← coe_add, ← coe_add, ← ihc (k + 1), ← ihr (number children (k + 1)).2]
    exact labelsOf_cons ..

/-! ## After the parser -/

def Name.isRef : Name → Bool
  | .ref _ => true
  | .node _ => false

/-- The overlays that wait at the top. -/
def refs (f : Forest Info) : List DtsNode := f.tops.filter fun n => n.1.name.isRef

/-- The node of an overlay as the parser made it. -/
def IsRef : Item → DtsNode → Prop
  | .overlay l props ds, n => n.1.name = .ref l ∧ n.1.props = props ∧ ∃ k, n.2 = (number ds k).1
  | _, _ => False

structure Parsed (xs : List Item) (s : Parse) : Prop where
  refines : Refines s.root (runEffect .empty (xs.filter (!·.isOverlay)))
  refs : List.Forall₂ IsRef (xs.filter (·.isOverlay)) (refs s.root.2)
  collect : collectRefs s.root.2 = (Dtc.refs s.root.2).map (·.1.id)
  nodup : (s.root.2.tags Info.id).Nodup
  below : ∀ x ∈ s.root.2.tags Info.id, x < s.next
  labels : labelsOf s.root.2 ≤ ↑(xs.flatMap Item.labels)
  rootLabel : s.root.1.label = none
  hasRoot : s.hasRoot = xs.any (!·.isOverlay)

theorem collectRefs_number (ds : Decls) (k : Nat) : collectRefs (number ds k).1 = [] := by
  induction ds generalizing k with
  | nil => rfl
  | cons name label props children rest ihc ihr =>
    rw [number]
    dsimp only
    rw [collectRefs, ihc, ihr]
    rfl

theorem refs_number (ds : Decls) (k : Nat) : ∀ n ∈ (number ds k).1.tops, n.1.name.isRef = false := by
  induction ds generalizing k with
  | nil => exact fun n hn => absurd hn not_mem_nil
  | cons name label props children rest _ ihr =>
    intro n hn
    rcases mem_cons.mp hn with h | h
    · rw [h]
      rfl
    · exact ihr _ n h

theorem collectRefs_snoc (f : Forest Info) (n : DtsNode) :
    collectRefs (f.snoc n) = collectRefs f ++ collectRefs (.cons n.1 n.2 .nil) := by
  induction f with
  | nil => rfl
  | cons a c rest _ ihr =>
    rw [Forest.snoc, collectRefs, collectRefs, ihr, append_assoc, append_assoc, append_assoc]

theorem collectRefs_adjust {k : Name} {g : DtsNode → DtsNode}
    (hg : ∀ n, collectRefs (.cons (g n).1 (g n).2 .nil) = collectRefs (.cons n.1 n.2 .nil))
    (f : Forest Info) : collectRefs (f.adjust Info.name k g) = collectRefs f := by
  have hsplit : ∀ (a : Info) (c r : Forest Info),
      collectRefs (.cons a c r) = collectRefs (.cons a c .nil) ++ collectRefs r := by
    intro a c r
    rw [collectRefs, collectRefs]
    simp [collectRefs]
  induction f with
  | nil => rfl
  | cons a c rest _ ihr =>
    rw [Forest.adjust]
    split
    · rw [hsplit, hg, ← hsplit]
    · rw [collectRefs, collectRefs, ihr]

theorem collectRefs_merge (s t : Forest Info) (hs : collectRefs s = []) :
    collectRefs (Forest.merge Info.name Info.join s t) = collectRefs t := by
  induction s generalizing t with
  | nil => rfl
  | cons a c rest ihc ihr =>
    rw [collectRefs, append_eq_nil_iff, append_eq_nil_iff] at hs
    rw [Forest.merge, ihr _ hs.2]
    split
    · refine collectRefs_adjust (fun n => ?_) t
      rw [collectRefs, collectRefs, ihc _ hs.1.2]
      rfl
    · rw [collectRefs_snoc, collectRefs, hs.1.1, hs.1.2]
      exact append_nil _

theorem runEffect_append (e : Effect) (xs ys : List Item) :
    runEffect e (xs ++ ys) = runEffect (runEffect e xs) ys := by
  induction xs generalizing e with
  | nil => rfl
  | cons x xs ih => exact ih _

theorem join_id (a b : Info) : (a.join b).id = a.id := rfl

theorem join_label (a b : Info) : (a.join b).label = a.label := rfl

variable {s : Parse} {xs : List Item}

/-- A root block, as a body that is merged into the root. -/
theorem Parsed.merge (h : Parsed xs s) {i : Info}
    {d : Decls} {k : Nat} (hroot : it.isOverlay = false) (hk : s.next ≤ k) (hs : d.Simple)
    (hlab : it.labels = d.effect.labels.map (·.1))
    (heff : ∀ e, it.effect e = bodyEffect i.props d)
    (hok : it.Ok (runEffect .empty (xs.filter (!·.isOverlay)))) :
    Parsed (xs ++ [it]) ⟨mergeNode (i, (number d k).1) s.root, (number d k).2, true⟩ := by
  have hbody : IsBody ({ i with props := [] }, (number d k).1) d.effect := isBody_number hs k rfl
  obtain ⟨hnd, hrange⟩ := number_ids d k
  have hroots : (xs ++ [it]).filter (!·.isOverlay) = xs.filter (!·.isOverlay) ++ [it] := by
    rw [filter_append, filter_cons_of_pos (by simp [hroot]), filter_nil]
  have hovs : (xs ++ [it]).filter (·.isOverlay) = xs.filter (·.isOverlay) := by
    rw [filter_append, filter_cons_of_neg (by simp [hroot]), filter_nil, append_nil]
  have hids : (Forest.merge Info.name Info.join (number d k).1 s.root.2).tags Info.id ≤
      s.root.2.tags Info.id + (number d k).1.tags Info.id :=
    Forest.tags_merge_le join_id _ _
  have hrefs : Dtc.refs (Forest.merge Info.name Info.join (number d k).1 s.root.2) =
      Dtc.refs s.root.2 :=
    Forest.filter_tops_merge join_name _ _ (refs_number d k)
  refine ⟨?_, ?_, ?_, ?_, fun x hx => ?_, ?_, h.rootLabel, ?_⟩
  · rw [hroots, runEffect_append, runEffect, runEffect, heff]
    have hnew : ∀ l q, (l, q) ∈ d.effect.labels → s.root.at ([] ++ q) = none := by
      intro l q hl
      have hq := (hok.fresh.2 (l, q) (heff _ ▸ bodyEffect_labels i.props d ▸ hl)).2
      have hne : q ≠ [] := by
        intro h0
        exact nil_notMem_declared d (h0 ▸ Effect.mem_declared_of_label hl)
      rw [nil_append, ← Option.not_isSome_iff_eq_none, h.refines.node]
      exact fun h => h.elim hne hq
    have hm := h.refines.mergeAt (s := (i, (number d k).1)) hbody rfl hnew
    change Refines _ (Effect.append _ ((bodyEffect i.props d).under [])) at hm
    have hunder : (bodyEffect i.props d).under [] = bodyEffect i.props d := by simp [under]
    rwa [hunder] at hm
  · rw [hovs]
    exact hrefs ▸ h.refs
  · exact (collectRefs_merge _ _ (collectRefs_number d k)).trans (h.collect.trans
      (congrArg _ hrefs.symm))
  · refine Multiset.nodup_of_le hids (nodup_add.mpr ⟨h.nodup, hnd, ?_⟩)
    refine Multiset.disjoint_left.mpr @fun x hx hx' => ?_
    have := h.below x hx
    have := (hrange x hx').1
    omega
  · have hle := number_le d k
    dsimp only
    rcases mem_add.mp (Multiset.mem_of_le hids hx) with hx | hx
    · have := h.below x hx
      omega
    · exact (hrange x hx).2
  · have hl : labelsOf (Forest.merge Info.name Info.join (number d k).1 s.root.2) ≤
        labelsOf s.root.2 + labelsOf (number d k).1 := by
      unfold labelsOf
      rw [← filterMap_add]
      exact Multiset.filterMap_le_filterMap _ (Forest.tags_merge_le join_label _ _)
    refine hl.trans ?_
    rw [labelsOf_number, flatMap_append, ← coe_add, ← hlab]
    refine add_le_add h.labels ?_
    rw [flatMap_cons, flatMap_nil, append_nil]
  · simp [hroot]

theorem Parsed.overlay (h : Parsed xs s) (l : String) (props : List DtsProperty) (ds : Decls) :
    Parsed (xs ++ [.overlay l props ds]) (s.add (.overlay l props ds)) := by
  obtain ⟨hnd, hrange⟩ := number_ids ds (s.next + 1)
  have hle := number_le ds (s.next + 1)
  have hroots : (xs ++ [Item.overlay l props ds]).filter (!·.isOverlay) =
      xs.filter (!·.isOverlay) := by
    rw [filter_append, filter_cons_of_neg (by simp [Item.isOverlay]), filter_nil, append_nil]
  have hovs : (xs ++ [Item.overlay l props ds]).filter (·.isOverlay) =
      xs.filter (·.isOverlay) ++ [.overlay l props ds] := by
    rw [filter_append, filter_cons_of_pos rfl, filter_nil]
  have hrefs : ∀ n : DtsNode, n.1.name = .ref l → Dtc.refs (s.root.2.snoc n) =
      Dtc.refs s.root.2 ++ [n] := by
    intro n hn
    unfold Dtc.refs
    rw [Forest.tops_snoc, filter_append, filter_cons_of_pos (by rw [hn]; rfl), filter_nil]
  have hat : ∀ (n : DtsNode) (p : Path), n.1.name = .ref l →
      DtsNode.at p (s.root.1, s.root.2.snoc n) = s.root.at p := by
    intro n p hn
    cases p with
    | nil => rfl
    | cons k p =>
      rw [at_cons, at_cons, Forest.find_snoc, if_neg (by rw [hn]; simp), Option.or_none]
  unfold Parse.add
  dsimp only
  refine ⟨?_, ?_, ?_, ?_, fun x hx => ?_, ?_, h.rootLabel, ?_⟩
  · rw [hroots]
    exact h.refines.congr fun p => hat _ p rfl
  · rw [hovs, hrefs _ rfl]
    exact rel_append h.refs (.cons ⟨rfl, rfl, s.next + 1, rfl⟩ .nil)
  · rw [hrefs _ rfl, collectRefs_snoc, h.collect, map_append, collectRefs, collectRefs_number]
    rfl
  · rw [Forest.tags_snoc, nodup_add, Multiset.nodup_cons]
    refine ⟨h.nodup, ⟨fun hx => ?_, hnd⟩, Multiset.disjoint_left.mpr @fun x hx hx' => ?_⟩
    · have := (hrange _ hx).1
      dsimp only at this
      omega
    · have := h.below x hx
      rcases Multiset.mem_cons.mp hx' with hx' | hx'
      · dsimp only at hx'
        omega
      · have := (hrange x hx').1
        omega
  · rw [Forest.tags_snoc] at hx
    dsimp only
    rcases mem_add.mp hx with hx | hx
    · have := h.below x hx
      omega
    rcases Multiset.mem_cons.mp hx with hx | hx
    · dsimp only at hx
      omega
    · exact (hrange x hx).2
  · have hl : labelsOf (s.root.2.snoc (⟨s.next, .ref l, none, props⟩, (number ds (s.next + 1)).1)) =
        labelsOf s.root.2 + labelsOf (number ds (s.next + 1)).1 := by
      unfold labelsOf
      rw [Forest.tags_snoc, filterMap_add, Multiset.filterMap_cons_none _ _ rfl]
    rw [hl, labelsOf_number, flatMap_append, ← coe_add]
    refine add_le_add h.labels ?_
    rw [flatMap_cons, flatMap_nil, append_nil]
    exact le_refl _
  · rw [h.hasRoot]
    simp [Item.isOverlay]

theorem Parsed.add (h : Parsed xs s)
    (hok : it.isOverlay = false → it.Ok (runEffect .empty (xs.filter (!·.isOverlay)))) :
    Parsed (xs ++ [it]) (s.add it) := by
  cases it with
  | root props ds =>
    have hi := hok rfl
    exact h.merge rfl (le_succ _) hi.simple rfl (fun _ => rfl) hi
  | namedRoot name props ds =>
    have hi := hok rfl
    have hlab : (Item.namedRoot name props ds).labels =
        (Decls.cons name none props ds .nil).effect.labels.map (·.1) :=
      (namedRoot_labels name props ds).symm
    exact h.merge (i := ⟨s.next, .node "", none, []⟩) (d := .cons name none props ds .nil) rfl
      (le_refl _) ⟨not_mem_nil, hi.simple.2, hi.simple.1, trivial⟩ hlab
      (fun _ => rfl) hi
  | overlay l props ds => exact h.overlay l props ds

theorem parsed (src xs : List Item) (h : Parsed xs s)
    (hok : OkRun (runEffect .empty (xs.filter (!·.isOverlay))) (src.filter (!·.isOverlay))) :
    Parsed (xs ++ src) (src.foldl Parse.add s) := by
  induction src generalizing xs s with
  | nil => rwa [append_nil]
  | cons it src ih =>
    rw [foldl_cons, append_cons]
    cases hov : it.isOverlay with
    | true =>
      rw [filter_cons_of_neg (by simp [hov])] at hok
      refine ih (xs ++ [it]) (h.add fun hr => absurd (hov.symm.trans hr) (by simp)) ?_
      rwa [filter_append, filter_cons_of_neg (by simp [hov]), filter_nil, append_nil]
    | false =>
      rw [filter_cons_of_pos (by simp [hov])] at hok
      refine ih (xs ++ [it]) (h.add fun _ => hok.1) ?_
      rw [filter_append, filter_cons_of_pos (by simp [hov]), filter_nil, runEffect_append]
      exact hok.2

theorem parsed_start : Parsed [] Parse.start := by
  refine ⟨⟨fun p => ?_, fun p k => ?_, fun l p hl => absurd hl not_mem_nil⟩, .nil, rfl,
    Multiset.nodup_zero, fun x hx => absurd hx (Multiset.notMem_zero x), Multiset.zero_le _, rfl,
    rfl⟩
  · cases p with
    | nil => exact ⟨fun _ => .inl rfl, fun _ => rfl⟩
    | cons k p =>
      refine ⟨fun h => absurd h Bool.false_ne_true, fun h => ?_⟩
      exact h.elim (fun h => absurd h (by simp)) fun h => absurd h not_mem_nil
  · cases p <;> rfl

end MiniTree.Dtc
