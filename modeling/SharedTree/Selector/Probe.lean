import SharedTree.Selector.Basic

namespace SharedTree.Selector

def attributeCount (count : Nat) : Selector := .attributes fun a => .silent (a.size == count)
def parentNamed (name : String) : Selector := .custom fun p => .silent (p.parent?.any (·.name == name))
def childNamed (name : String) : Selector := .custom fun p => .silent (p.children.any (·.name == name))
def fanout (count : Nat) : Selector := .custom fun p => .silent (p.node.children.length == count)
def deeperThan (level : Nat) : Selector := .custom fun p => .silent (level < p.depth)
def marking (tag : String) (answer : Bool) : Selector := .custom fun p => ⟨answer,[tag ++ "@" ++ p.name]⟩

end SharedTree.Selector
