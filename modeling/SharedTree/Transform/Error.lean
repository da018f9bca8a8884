import SharedTree.Tree.Error

namespace SharedTree

inductive TransformError where
  | typeMismatch (shaper stage : String)
  | tree (error : TreeError)
  deriving DecidableEq, Repr

def TransformError.message : TransformError → String
  | .typeMismatch shaper stage =>
    s!"Cannot append '{stage}' after shaper '{shaper}': a shaper must be the last stage"
  | .tree error => "Structural violation: " ++ error.message

end SharedTree
