import MiniTree.Dtc.Ast

/-!
# Merging root blocks and overlays (`tools/dtc_lite/parser.py`, `compiler.py`)

`parse_dts` merges the root blocks and keeps each overlay as a child `&label` of the root; then
`_merge_overlays` looks each label up in a map from labels to objects that was made before the first
overlay is merged. Merging changes the target object and moves the children it does not have; the
merged object itself is dropped from the tree, while the map may still have it. An overlay on such an
object, which is in the tree no more, is the error `detached`: what it changes is no longer a node
of the tree, and what follows is not modelled. Deletions are left out.
-/

namespace MiniTree.Dtc

/-! ## Merging -/

/-- A property replaces the first one of its name or is appended.
mirrors parser.py:432-439 -/
def setProp : List DtsProperty → DtsProperty → List DtsProperty
  | [], p => [p]
  | q :: qs, p => if q.name = p.name then p :: qs else q :: setProp qs p

def mergeProps (target src : List DtsProperty) : List DtsProperty := src.foldl setProp target

def Info.join (target src : Info) : Info := { target with props := mergeProps target.props src.props }

/-- mirrors parser.py:430-446 (`_merge_node`) and compiler.py:880-895, 906-921 -/
def mergeNode (src target : DtsNode) : DtsNode := Forest.mergeNode Info.name Info.join src target

/-! ## The parser -/

/-- The nodes of a body, each a new object. -/
def number : Decls → Nat → Forest Info × Nat
  | .nil, k => (.nil, k)
  | .cons name label props children rest, k =>
    let c := number children (k + 1)
    let r := number rest c.2
    (.cons ⟨k, .node name, label, props⟩ c.1 r.1, r.2)

structure Parse where
  root : DtsNode
  next : Nat
  hasRoot : Bool

def Parse.start : Parse := ⟨(⟨0, .node "", none, []⟩, .nil), 1, false⟩

/-- The loop of `parse_dts`.
mirrors parser.py:476-499 -/
def Parse.add (s : Parse) : Item → Parse
  | .root props children =>
    let body := number children (s.next + 1)
    ⟨mergeNode (⟨s.next, .node "", none, props⟩, body.1) s.root, body.2, true⟩
  | .namedRoot name props children =>
    let body := number children (s.next + 1)
    let node := (⟨s.next, .node name, none, props⟩, body.1)
    let children :=
      if (s.root.findChild (.node name)).isSome then
        s.root.2.adjust Info.name (.node name) (mergeNode node)
      else s.root.2.snoc node
    ⟨(s.root.1, children), body.2, true⟩
  | .overlay label props children =>
    let body := number children (s.next + 1)
    ⟨(s.root.1, s.root.2.snoc (⟨s.next, .ref label, none, props⟩, body.1)), body.2, s.hasRoot⟩

/-! ## The compiler -/

inductive CompileError where
  | missingRoot
  | detached (label : String)
  deriving DecidableEq

/-- mirrors compiler.py:839-843 (`_build_label_map`) -/
def labelPairs : Forest Info → List (String × Nat)
  | .nil => []
  | .cons a c rest =>
    (match a.label with
      | some l => [(l, a.id)]
      | none => []) ++ labelPairs c ++ labelPairs rest

/-- The entry of a label: the last one that was written. -/
def LabelMap.get (map : List (String × Nat)) (label : String) : Option Nat :=
  (map.reverse.find? (·.1 = label)).map (·.2)

/-- mirrors compiler.py:900-904 (`_collect_ref_nodes`) -/
def collectRefs : Forest Info → List Nat
  | .nil => []
  | .cons a c rest =>
    (match a.name with
      | .ref _ => [a.id]
      | .node _ => []) ++ collectRefs c ++ collectRefs rest

structure Compiler where
  root : DtsNode
  next : Nat
  labelMap : List (String × Nat)
  deriving DecidableEq

namespace Compiler

/-- A label that the map does not have gets a node, `/soc` or a child of `/soc`.
mirrors compiler.py:857-877 -/
def invent (c : Compiler) (label : String) : Compiler :=
  if label = "soc" then
    { root := (c.root.1, c.root.2.snoc (⟨c.next, .node "soc", some "soc", []⟩, .nil))
      next := c.next + 1
      labelMap := c.labelMap ++ [(label, c.next)] }
  else if (c.root.findChild (.node "soc")).isSome then
    { root := (c.root.1, c.root.2.adjust Info.name (.node "soc") fun n =>
        (n.1, n.2.snoc (⟨c.next, .node label, some label, []⟩, .nil)))
      next := c.next + 1
      labelMap := c.labelMap ++ [(label, c.next)] }
  else
    { root := (c.root.1, c.root.2.snoc (⟨c.next + 1, .node "soc", some "soc", []⟩,
        .cons ⟨c.next, .node label, some label, []⟩ .nil .nil))
      next := c.next + 2
      labelMap := c.labelMap ++ [(label, c.next)] }

/-- The node of a label, and the state after a node may have been made for it. -/
def target (c : Compiler) (label : String) : Compiler × Nat :=
  match LabelMap.get c.labelMap label with
  | some t => (c, t)
  | none => (c.invent label, c.next)

/-- One overlay: merged into its target and taken from the children of the root.
mirrors compiler.py:852-898 -/
def mergeOverlay (c : Compiler) (ref : Nat) : Except CompileError Compiler :=
  match c.root.2.lookup (·.id = ref) with
  | none => .ok c
  | some node =>
    match node.1.name with
    | .node _ => .ok c
    | .ref label =>
      let (c, t) := c.target label
      match c.root.2.lookup (·.id = t) with
      | none => .error (.detached label)
      | some _ =>
        let children := c.root.2.modify (·.id = t) (mergeNode node)
        .ok { c with root := (c.root.1, children.removeTop (·.id = ref)) }

/-- mirrors compiler.py:845-898 -/
def mergeOverlays (c : Compiler) : Except CompileError Compiler :=
  (collectRefs c.root.2).foldlM mergeOverlay c

end Compiler

/-- mirrors compiler.py:747-760 -/
def compile (src : List Item) : Except CompileError Compiler :=
  let s := src.foldl Parse.add Parse.start
  if s.hasRoot then
    match Compiler.mergeOverlays ⟨s.root, s.next, labelPairs s.root.2⟩ with
    | .error e => .error e
    | .ok c => .ok { c with labelMap := labelPairs c.root.2 }
  else .error .missingRoot

/-- What the compiler knows of a property: the node at the path and its property of that name. -/
def Compiler.value (c : Compiler) (p : List String) (name : String) : Option DtsProperty :=
  (c.root.at p).bind fun i => getProp name i.props

end MiniTree.Dtc
