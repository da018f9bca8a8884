import SharedTree.Mapping.Key

namespace SharedTree

inductive TreeError where
  | duplicateParent (name : String)
  | cycle (name : String)
  | reparentRoot (name : String)
  | multipleRoots (first second : String)
  | missingRoot
  | unknownParent (key parent : String)
  | invalidKey (key : String) (fault : Key.Fault)
  | notInTree (name : String)
  deriving DecidableEq, Repr

def TreeError.message : TreeError → String
  | .duplicateParent name => s!"Node '{name}' is attached to more than one parent"
  | .cycle name => s!"Cycle detected involving '{name}'"
  | .reparentRoot name => s!"Root node '{name}' cannot be re-parented or removed"
  | .multipleRoots first second => s!"Mapping has more than one root: '{first}' and '{second}'"
  | .missingRoot => "Mapping has no root entry"
  | .unknownParent key parent => s!"Entry '{key}' refers to unknown parent '{parent}'"
  | .invalidKey key fault => s!"Invalid mapping key '{key}': {fault.message}"
  | .notInTree name => s!"Node '{name}' is not part of this tree"

end SharedTree
