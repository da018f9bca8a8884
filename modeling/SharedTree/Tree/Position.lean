import SharedTree.Tree.Basic

namespace SharedTree

-- A node together with the nodes above it, nearest first.
structure Position where
  node : Node
  above : List Node

namespace Position

def name (p : Position) : String := p.node.name
def attributes (p : Position) : Attributes := p.node.attributes
def isRoot (p : Position) : Bool := p.above.isEmpty
def isLeaf (p : Position) : Bool := p.node.isLeaf
def depth (p : Position) : Nat := p.above.length

def under (p : Position) (child : Node) : Position := ⟨child,p.node :: p.above⟩
def children (p : Position) : List Position := p.node.children.map p.under

def parent? (p : Position) : Option Position :=
  match p.above with
  | [] => none
  | parent :: above => some ⟨parent,above⟩

def upward : List Node → List Position
  | [] => []
  | node :: above => ⟨node,above⟩ :: upward above

def ancestors (p : Position) : List Position := upward p.above

-- Root first, the node itself last.
def chain (p : Position) : List Node := (p.node :: p.above).reverse

-- The place among the children of the parent, found by identity.
def siblingIndex? (p : Position) : Option Nat :=
  match p.above with
  | [] => none
  | parent :: _ => parent.children.findIdx? (·.is p.node)

def indexPath (p : Position) : List Nat := ((p :: p.ancestors).filterMap siblingIndex?).reverse

def escape (name : String) : String :=
  String.ofList (name.toList.flatMap fun c => if c = '\\' ∨ c = '.' then ['\\',c] else [c])

def path (p : Position) : String := String.intercalate "." (p.chain.map fun n => escape n.name)

def at? (p : Position) : List Nat → Option Position
  | [] => some p
  | index :: path => (p.node.child? index).bind fun child => (p.under child).at? path

end Position

namespace Tree

def top (tree : Tree) : Position := ⟨tree.root,[]⟩
def at? (tree : Tree) (path : List Nat) : Option Position := tree.top.at? path

end Tree
end SharedTree
