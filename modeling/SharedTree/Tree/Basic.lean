import SharedTree.Node.Basic
import SharedTree.Tree.Error

namespace SharedTree
namespace Node

def note (seen : List Nat) : List Node → Except Node (List Nat)
  | [] => .ok seen
  | child :: rest => if seen.contains child.serial then .error child else note (child.serial :: seen) rest

-- Notes the children of a node, then what is below each of them, the last child first.
mutual
def noteBelow (seen : List Nat) : Node → Except Node (List Nat)
  | .mk _ _ _ children =>
    match note seen children with
    | .error child => .error child
    | .ok seen => noteBelowAll seen children

def noteBelowAll (seen : List Nat) : List Node → Except Node (List Nat)
  | [] => .ok seen
  | child :: rest =>
    match noteBelowAll seen rest with
    | .error child => .error child
    | .ok seen => noteBelow seen child
end

def repeated? (root : Node) : Option Node :=
  match noteBelow [] root with
  | .error node => some node
  | .ok _ => none

end Node

structure Tree where
  root : Node
  unshared : root.repeated? = none

namespace Tree

def ofRoot (root : Node) : Except TreeError Tree :=
  match found : root.repeated? with
  | some node => .error (.duplicateParent node.name)
  | none => .ok ⟨root,found⟩

theorem ofRoot_root {root : Node} {tree : Tree} (built : ofRoot root = .ok tree) : tree.root = root := by
  unfold ofRoot at built
  split at built
  · cases built
  · cases built; rfl

theorem ofRoot_own (tree : Tree) : ofRoot tree.root = .ok tree := by
  unfold ofRoot
  split
  · rename_i node found
    rw [tree.unshared] at found
    cases found
  · rfl

def size (tree : Tree) : Nat := tree.root.size
def same (a b : Tree) : Bool := a.root.same b.root

end Tree
end SharedTree
