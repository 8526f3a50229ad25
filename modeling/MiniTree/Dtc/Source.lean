import MiniTree.Dtc.Compile

/-!
# What a device tree source says

The meaning of a source without a compiler: each block declares paths, some with a label, and
assigns properties at paths, in the order of the text. A root block speaks of paths from the root, an
overlay of paths below the node of its label, which is declared in some root block or in an earlier
overlay; for a label that is declared in neither, the node that is invented for it. The value of a
property is the last one assigned.
-/

namespace MiniTree.Dtc

abbrev Path := List String

/-- What a part of the source declares, with the label if there is one, and what it assigns. -/
structure Effect where
  decls : List (Path × Option String)
  assigns : List (Path × DtsProperty)
  deriving DecidableEq

namespace Effect

def empty : Effect := ⟨[], []⟩

def append (e f : Effect) : Effect := ⟨e.decls ++ f.decls, e.assigns ++ f.assigns⟩

/-- The same at paths below `b`. -/
def under (b : Path) (e : Effect) : Effect :=
  ⟨e.decls.map fun d => (b ++ d.1, d.2), e.assigns.map fun a => (b ++ a.1, a.2)⟩

def declared (e : Effect) : List Path := e.decls.map (·.1)

def labels (e : Effect) : List (String × Path) := e.decls.filterMap fun d => d.2.map (·, d.1)

def labelPath (e : Effect) (l : String) : Option Path := (e.labels.find? (·.1 = l)).map (·.2)

def lastAssigned (e : Effect) (p : Path) (k : String) : Option DtsProperty :=
  (e.assigns.reverse.find? fun a => a.1 = p ∧ a.2.name = k).map (·.2)

end Effect

def Decls.effect : Decls → Effect
  | .nil => .empty
  | .cons name label props children rest =>
    (Effect.append ⟨[([name], label)], props.map ([name], ·)⟩ (children.effect.under [name])).append
      rest.effect

def bodyEffect (props : List DtsProperty) (children : Decls) : Effect :=
  Effect.append ⟨[], props.map ([], ·)⟩ children.effect

/-- Where the node of a label that is declared nowhere is made. -/
def inventedPath (l : String) : Path := if l = "soc" then ["soc"] else ["soc", l]

def inventedEffect (l : String) : Effect :=
  if l = "soc" then ⟨[(["soc"], some "soc")], []⟩
  else ⟨[(["soc"], none), (["soc", l], some l)], []⟩

namespace Item

def isOverlay : Item → Bool
  | .overlay .. => true
  | _ => false

/-- The effect of a block, after `seen`. -/
def effect (seen : Effect) : Item → Effect
  | .root props children => bodyEffect props children
  | .namedRoot name props children => (Decls.cons name none props children .nil).effect
  | .overlay l props children =>
    match seen.labelPath l with
    | some b => (bodyEffect props children).under b
    | none => (inventedEffect l).append ((bodyEffect props children).under (inventedPath l))

end Item

def concat (es : List Effect) : Effect := es.foldr Effect.append .empty

/-- The effects of the root blocks, which do not depend on what is before them. -/
def rootEffects (src : List Item) : List Effect := (src.filter (!·.isOverlay)).map (·.effect .empty)

/-- The effects of blocks, each marked as an overlay or not, where `seen` is what the overlays
before them and all root blocks have declared. -/
def blockEffects (seen : Effect) : List Item → List (Bool × Effect)
  | [] => []
  | it :: its =>
    let e := it.effect seen
    (it.isOverlay, e) :: blockEffects (if it.isOverlay then seen.append e else seen) its

/-- The blocks of a source in the order of the text. -/
def blocks (src : List Item) : List (Bool × Effect) := blockEffects (concat (rootEffects src)) src

def sourceEffect (src : List Item) : Effect := concat ((blocks src).map (·.2))

/-- The compiled tree has what the source says: at each path the value last assigned to each
property, every node that is declared, and each label names the node it was declared at. -/
structure SaysAll (src : List Item) (c : Compiler) : Prop where
  value : ∀ p k, c.value p k = (sourceEffect src).lastAssigned p k
  node : ∀ p ∈ (sourceEffect src).declared, (c.root.at p).isSome
  label : ∀ l p, (l, p) ∈ (sourceEffect src).labels →
    ∃ i, c.root.at p = some i ∧ LabelMap.get c.labelMap l = some i.id

/-- The source compiles to a tree that has what it says. -/
def LosesNothing (src : List Item) : Prop := ∃ c, compile src = .ok c ∧ SaysAll src c

end MiniTree.Dtc
