import MiniTree.Core.Forest

/-!
# The device tree source (`tools/dtc_lite/dts_ast.py`, `grammar.py`)

What the parser makes of a source without deletions: a list of root blocks and overlays, whose
bodies are properties and named, possibly labelled children. A node of the compiler is a Python
object; here it has an `id`, so that two nodes of one content stay different objects. The name of an
overlay's node is the text `&label`, which no other name can be (`IDENT` has no `&`), and is kept as
a constructor of its own. `parent` and `line` are left out.
-/

namespace MiniTree.Dtc

/-- mirrors dts_ast.py:8-18 -/
structure DtsProperty where
  name : String
  strings : List String
  ints : List Int
  phandles : List String
  deriving DecidableEq, Repr

/-- The children of a body, in the order of the text. -/
inductive Decls where
  | nil
  | cons (name : String) (label : Option String) (props : List DtsProperty) (children rest : Decls)
  deriving DecidableEq

/-- A block of the source.
mirrors grammar.py:29-32 (`plain_root`, `named_root`, `overlay`) -/
inductive Item where
  | root (props : List DtsProperty) (children : Decls)
  | namedRoot (name : String) (props : List DtsProperty) (children : Decls)
  | overlay (label : String) (props : List DtsProperty) (children : Decls)
  deriving DecidableEq

inductive Name where
  | node (name : String)
  | ref (label : String)
  deriving DecidableEq

/-- A node without its children. -/
structure Info where
  id : Nat
  name : Name
  label : Option String
  props : List DtsProperty
  deriving DecidableEq

/-- mirrors dts_ast.py:34-51 -/
abbrev DtsNode := Info × Forest Info

/-- mirrors dts_ast.py:89-93 -/
def getProp (name : String) (props : List DtsProperty) : Option DtsProperty :=
  props.find? (·.name = name)

/-- mirrors dts_ast.py:63-67 -/
def DtsNode.findChild (n : DtsNode) (name : Name) : Option DtsNode := n.2.find Info.name name

def DtsNode.at (p : List String) (n : DtsNode) : Option Info := Forest.infoAt Info.name (p.map .node) n

end MiniTree.Dtc
