import SharedTree.Node.Basic

namespace SharedTree

inductive Edit where
  | only (name : String)
  | onlyLeaf
  | onlyAttribute (key : String)
  | rename (name : String)
  | extend (ending : String)
  | set (key : String) (value : Value)
  | unset (key : String)
  | clearAttributes
  | push (name : String)
  | duplicate (index : Nat)
  | remove (index : Nat)
  | replace (index : Nat) (name : String)
  | reverse
  | clear
  | rebuild
  | size (key : String)
  | names (key : String)
  deriving Repr

namespace Edit

def guarded? : Edit → Node → Option Bool
  | .only name,n => some (n.name == name)
  | .onlyLeaf,n => some n.isLeaf
  | .onlyAttribute key,n => some (n.attributes.contains key)
  | _,_ => none

def change : Edit → Node → Fresh Node
  | .rename name,n => n.withName name
  | .extend ending,n => n.withName (n.name ++ ending)
  | .set key value,n => n.withAttribute key value
  | .unset key,n => n.withAttributes (n.attributes.erase key)
  | .clearAttributes,n => n.withAttributes .empty
  | .push name,n => do n.pushChild (← Node.leaf name .empty)
  | .duplicate index,n =>
    match n.child? index with
    | some child => n.pushChild child
    | none => pure n
  | .remove index,n => return (← n.removeChild? index).getD n
  | .replace index name,n => do
    let child ← Node.leaf name .empty
    return (← n.replaceChild? index child).getD n
  | .reverse,n => n.withChildren n.children.reverse
  | .clear,n => n.withChildren []
  | .rebuild,n => Node.make n.name n.attributes n.children
  | .size key,n => n.withAttribute key (.int n.size)
  | .names key,n => n.withAttribute key (.string (String.intercalate "," (n.children.map Node.name)))
  | .only _,n | .onlyLeaf,n | .onlyAttribute _,n => pure n

-- A guard that does not hold ends the run with the node so far.
def run : List Edit → Node → Fresh Node
  | [],n => pure n
  | edit :: rest,n =>
    match edit.guarded? n with
    | some false => pure n
    | some true => run rest n
    | none => do run rest (← edit.change n)

end Edit
end SharedTree
