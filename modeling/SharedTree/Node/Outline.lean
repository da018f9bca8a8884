import SharedTree.Node.Basic

namespace SharedTree

inductive Outline where
  | mk (name : String) (attributes : Attributes) (children : List Outline)

namespace Outline

mutual
def same : Outline → Outline → Bool
  | .mk n a cs,.mk m b ds => n == m && Attributes.same a b && sameAll cs ds

def sameAll : List Outline → List Outline → Bool
  | [],[] => true
  | c :: cs,d :: ds => c.same d && sameAll cs ds
  | _,_ => false
end

mutual
def size : Outline → Nat
  | .mk _ _ children => 1 + sizeAll children

def sizeAll : List Outline → Nat
  | [] => 0
  | child :: rest => child.size + sizeAll rest
end

mutual
def make : Outline → Fresh Node
  | .mk name attributes children => do
    let children ← makeAll children
    Node.make name attributes children

def makeAll : List Outline → Fresh (List Node)
  | [] => pure []
  | child :: rest => do
    let child ← make child
    let rest ← makeAll rest
    pure (child :: rest)
end

end Outline

namespace Node

mutual
def outline : Node → Outline
  | .mk _ name attributes children => .mk name attributes (outlineAll children)

def outlineAll : List Node → List Outline
  | [] => []
  | child :: rest => child.outline :: outlineAll rest
end

end Node
end SharedTree
