import SharedTree.Tree.Index

namespace SharedTree.Tree

-- The path `path` once the child `index` of the node at `parent` is gone.
def pathWithout (parent : List Nat) (index : Nat) (path : List Nat) : List Nat :=
  match path.drop parent.length with
  | here :: rest =>
    if path.take parent.length = parent ∧ index < here then path.take parent.length ++ (here - 1) :: rest
    else path
  | [] => path

def move (tree : Tree) (node : Node) (parentPath : List Nat) (index : Nat) (target : List Nat)
    (targetName : String) : Fresh (Except TreeError Tree) := do
  let detach := fun n : Node => do return (← n.removeChild? index).getD n
  match ← Node.updateAt? detach parentPath tree.root with
  | none => pure (.error (.notInTree node.name))
  | some detached =>
    match ← Node.updateAt? (·.pushChild node) (pathWithout parentPath index target) detached with
    | none => pure (.error (.notInTree targetName))
    | some attached => pure (ofRoot attached)

def reparent (tree : Tree) (node parent : Node) : Fresh (Except TreeError Tree) :=
  match tree.locate? node,tree.locate? parent with
  | none,_ => pure (.error (.notInTree node.name))
  | _,none => pure (.error (.notInTree parent.name))
  | some moved,some target =>
    if moved.isRoot then pure (.error (.reparentRoot node.name))
    else if target.node.is moved.node || target.ancestors.any (·.node.is moved.node) then
      pure (.error (.cycle node.name))
    else
      match moved.indexPath.getLast? with
      | none => pure (.error (.reparentRoot node.name))
      | some index => tree.move node moved.indexPath.dropLast index target.indexPath parent.name

end SharedTree.Tree
