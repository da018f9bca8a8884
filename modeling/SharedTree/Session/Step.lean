import SharedTree.Mapping.Basic
import SharedTree.Node.Edit

namespace SharedTree.Session

inductive Step where
  | new (handle name : String) (attributes : Attributes)
  | save (handle : String) (path : List Nat)
  | edit (handle : String) (edits : List Edit) (into : String)
  | push (handle child into : String)
  | replace (handle : String) (index : Nat) (child into : String)
  | remove (handle : String) (index : Nat) (into : String)
  | rebuild (handle : String) (children : List String) (into : String)
  | setRoot (handle : String)
  | update (path : List Nat) (edits : List Edit)
  | reparent (handle parent : String)
  | revert (version : Nat)
  | contains (handle : String)
  | locate (handle : String)
  | parent (handle : String)
  | at (path : List Nat)
  | same (left right : String)
  | size (handle : String)
  | mapping

-- `replaced` comes with a new current tree and tells whether it equals the one before.
inductive Reply where
  | flag (answer : Bool)
  | text (answer : Option String)
  | equality (same identical : Bool)
  | count (answer : Nat)
  | mapping (answer : Mapping)
  | replaced (unchanged : Bool)
  | refused (error : TreeError)
  | unknownHandle

end SharedTree.Session
