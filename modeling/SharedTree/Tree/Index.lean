import SharedTree.Tree.Position

namespace SharedTree
namespace Node

-- Nodes know nothing of what is above them, so where a node at hand stands is found by climbing the
-- index.
mutual
def links : Node → List (Nat × Node)
  | n@(.mk _ _ _ children) => children.map (fun child => (child.serial,n)) ++ linksAll children

def linksAll : List Node → List (Nat × Node)
  | [] => []
  | child :: rest => child.links ++ linksAll rest
end

end Node

namespace Tree

def parentOf? (tree : Tree) (node : Node) : Option Node := tree.root.links.lookup node.serial

def contains (tree : Tree) (node : Node) : Bool := node.is tree.root || (tree.parentOf? node).isSome

-- The nodes above a node, nearest first. No node stands deeper than a tree has nodes.
def climb (tree : Tree) : Nat → Node → List Node
  | 0,_ => []
  | steps + 1,node =>
    match tree.parentOf? node with
    | none => []
    | some parent => parent :: tree.climb steps parent

def locate? (tree : Tree) (node : Node) : Option Position :=
  if tree.contains node then some ⟨node,tree.climb tree.size node⟩ else none

end Tree
end SharedTree
