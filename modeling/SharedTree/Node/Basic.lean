import SharedTree.Value.Basic

namespace SharedTree

-- A node gets a serial number when it is made and keeps it for good, so equal serials mean one and
-- the same node. `same` compares what two nodes hold.
inductive Node where
  | mk (serial : Nat) (name : String) (attributes : Attributes) (children : List Node)

abbrev Fresh := StateM Nat

def Fresh.serial : Fresh Nat := fun next => (next,next + 1)

namespace Node

def serial : Node → Nat | .mk s _ _ _ => s
def name : Node → String | .mk _ n _ _ => n
def attributes : Node → Attributes | .mk _ _ a _ => a
def children : Node → List Node | .mk _ _ _ c => c

instance : Inhabited Node := ⟨.mk 0 "" .empty []⟩

@[simp] theorem serial_mk : (Node.mk s n a c).serial = s := rfl
@[simp] theorem name_mk : (Node.mk s n a c).name = n := rfl
@[simp] theorem attributes_mk : (Node.mk s n a c).attributes = a := rfl
@[simp] theorem children_mk : (Node.mk s n a c).children = c := rfl

theorem eta (n : Node) : Node.mk n.serial n.name n.attributes n.children = n := by cases n; rfl

def make (name : String) (attributes : Attributes) (children : List Node) : Fresh Node := do
  let serial ← Fresh.serial
  pure (.mk serial name attributes children)

def leaf (name : String) (attributes : Attributes) : Fresh Node := make name attributes []

def is (a b : Node) : Bool := a.serial == b.serial
def isLeaf (n : Node) : Bool := n.children.isEmpty
def child? (n : Node) (index : Nat) : Option Node := n.children[index]?
def attribute? (n : Node) (key : String) : Option Value := n.attributes.get? key

def typeTag? (n : Node) : Option String := (n.attribute? "type").bind Value.string?

mutual
def size : Node → Nat
  | .mk _ _ _ children => 1 + sizeAll children

def sizeAll : List Node → Nat
  | [] => 0
  | child :: rest => child.size + sizeAll rest
end

theorem size_eq (n : Node) : n.size = 1 + sizeAll n.children := by cases n; rfl

theorem sizeAll_append (a b : List Node) : sizeAll (a ++ b) = sizeAll a + sizeAll b := by
  induction a with
  | nil => simp [sizeAll]
  | cons n rest ih => simp only [List.cons_append,sizeAll,ih]; omega

mutual
def same : Node → Node → Bool
  | .mk s n a cs,.mk t m b ds => s == t || (n == m && Attributes.same a b && sameAll cs ds)

def sameAll : List Node → List Node → Bool
  | [],[] => true
  | c :: cs,d :: ds => c.same d && sameAll cs ds
  | _,_ => false
end

def identicalAll (a b : List Node) : Bool := a.map serial == b.map serial

def alike (a b : Node) : Bool :=
  a.is b || (a.name == b.name && Attributes.same a.attributes b.attributes && identicalAll a.children b.children)

def withName (n : Node) (name : String) : Fresh Node := make name n.attributes n.children

def withAttributes (n : Node) (attributes : Attributes) : Fresh Node := make n.name attributes n.children

def withAttribute (n : Node) (key : String) (value : Value) : Fresh Node :=
  n.withAttributes (n.attributes.insert key value)

def withChildren (n : Node) (children : List Node) : Fresh Node := make n.name n.attributes children

def pushChild (n child : Node) : Fresh Node := n.withChildren (n.children ++ [child])

def replaceChild? (n : Node) (index : Nat) (child : Node) : Fresh (Option Node) :=
  if index < n.children.length then some <$> n.withChildren (n.children.set index child) else pure none

def removeChild? (n : Node) (index : Nat) : Fresh (Option Node) :=
  if index < n.children.length then some <$> n.withChildren (n.children.eraseIdx index) else pure none

def rebuild (n : Node) (children : List Node) : Fresh Node :=
  if identicalAll children n.children then pure n else n.withChildren children

def updateAt? (change : Node → Fresh Node) : List Nat → Node → Fresh (Option Node)
  | [],n => some <$> change n
  | index :: path,n =>
    match n.child? index with
    | none => pure none
    | some child => do
      match ← updateAt? change path child with
      | none => pure none
      | some changed => n.replaceChild? index changed

theorem updateAt?_root (change : Node → Fresh Node) (n : Node) :
    updateAt? change [] n = some <$> change n := rfl

end Node
end SharedTree
