import SharedTree.Transform.Basic
import SharedTree.Tree.Reparent

namespace SharedTree.Transform

def keepIfAlike (change : Node → Fresh Node) (n : Node) : Fresh Node := do
  let changed ← change n
  pure (if changed.alike n then n else changed)

mutual
def changeBelow (change : Node → Fresh Node) : Node → Fresh Node
  | n@(.mk _ _ _ children) => do
    let children ← changeEach change children
    keepIfAlike change (← n.rebuild children)

def changeEach (change : Node → Fresh Node) : List Node → Fresh (List Node)
  | [] => pure []
  | child :: rest => do
    let child ← changeBelow change child
    let rest ← changeEach change rest
    pure (child :: rest)
end

-- Selection looks at the input: `above` holds the nodes over this one as they were.
mutual
def changeSelected (s : Selector) (change : Node → Fresh Node) (above : List Node) : Node → Work Node
  | n@(.mk _ _ _ children) => do
    let children ← changeEachSelected s change (n :: above) children
    let rebuilt ← Work.fresh (n.rebuild children)
    if ← Work.judge s ⟨n,above⟩ then Work.fresh (keepIfAlike change rebuilt) else pure rebuilt

def changeEachSelected (s : Selector) (change : Node → Fresh Node) (above : List Node) :
    List Node → Work (List Node)
  | [] => pure []
  | child :: rest => do
    let child ← changeSelected s change above child
    let rest ← changeEachSelected s change above rest
    pure (child :: rest)
end

def mapNodes (change : Node → Fresh Node) : Transform where
  label := "map_nodes"
  apply tree := do
    let root ← Work.fresh (changeBelow change tree.root)
    pure (finish tree root)

def mapSelected (label : String) (s : Selector) (change : Node → Fresh Node) : Transform where
  label := label
  apply tree := do
    let root ← changeSelected s change [] tree.root
    pure (finish tree root)

def rename (s : Selector) (name : String) : Transform :=
  mapSelected s!"rename to '{name}'" s (·.withName name)

def setAttribute (s : Selector) (key : String) (value : Value) : Transform :=
  mapSelected s!"set_attr '{key}'" s (·.withAttribute key value)

def editRoot (change : Node → Fresh Node) : Transform where
  label := "root_edit"
  apply tree := do
    let root ← Work.fresh (change tree.root)
    pure ((Tree.ofRoot root).mapError .tree)

def move (source target : List Nat) : Transform where
  label := "move"
  apply tree :=
    match tree.at? source,tree.at? target with
    | some moved,some parent => do
      let result ← Work.fresh (tree.reparent moved.node parent.node)
      pure (result.mapError .tree)
    | _,_ => pure (.error (.tree (.notInTree "?")))

end SharedTree.Transform
