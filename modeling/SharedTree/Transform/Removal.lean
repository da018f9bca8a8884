import SharedTree.Transform.Basic

namespace SharedTree.Transform

-- What a node leaves behind: itself, or what its children leave if it is selected.
mutual
def splice (s : Selector) (above : List Node) : Node → Work (List Node)
  | n@(.mk _ _ _ children) => do
    let kept ← spliceEach s (n :: above) children
    if ← Work.judge s ⟨n,above⟩ then pure kept
    else
      let n ← Work.fresh (n.rebuild kept)
      pure [n]

def spliceEach (s : Selector) (above : List Node) : List Node → Work (List Node)
  | [] => pure []
  | child :: rest => do
    let first ← splice s above child
    let others ← spliceEach s above rest
    pure (first ++ others)
end

-- A node without the subtrees below it whose topmost node is selected.
mutual
def cut (s : Selector) (above : List Node) : Node → Work Node
  | n@(.mk _ _ _ children) => do
    let kept ← cutEach s (n :: above) children
    Work.fresh (n.rebuild kept)

def cutEach (s : Selector) (above : List Node) : List Node → Work (List Node)
  | [] => pure []
  | child :: rest => do
    if ← Work.judge s ⟨child,above⟩ then cutEach s above rest
    else
      let child ← cut s above child
      let rest ← cutEach s above rest
      pure (child :: rest)
end

def sparingRoot (s : Selector) (rebuild : Node → Work Node) (tree : Tree) : Work (Except TransformError Tree) := do
  if ← Work.judge s tree.top then pure (.error (.tree (.reparentRoot tree.root.name)))
  else
    let root ← rebuild tree.root
    pure (finish tree root)

def filter (s : Selector) : Transform where
  label := "filter_nodes"
  apply := sparingRoot s fun root => do
    let kept ← spliceEach s [root] root.children
    Work.fresh (root.rebuild kept)

def prune (s : Selector) : Transform where
  label := "prune"
  apply := sparingRoot s (cut s [])

end SharedTree.Transform
