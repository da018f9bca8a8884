import SharedTree.Session.Step
import SharedTree.Tree.Reparent

namespace SharedTree

-- A session keeps every tree it has replaced, and nodes under names, wherever they come from.
structure Session where
  tree : Tree
  earlier : List Tree
  handles : Table Node
  next : Nat

namespace Session

def start (tree : Tree) (next : Nat) : Session := ⟨tree,[],.empty,next⟩

def handle? (s : Session) (handle : String) : Option Node := s.handles.get? handle
def store (s : Session) (handle : String) (n : Node) : Session := { s with handles := s.handles.insert handle n }

def fresh (s : Session) (make : Fresh α) : α × Session :=
  let (a,next) := make.run s.next
  (a,{ s with next })

def adopt (s : Session) (tree : Tree) : Reply × Session :=
  (.replaced (tree.same s.tree),{ s with tree, earlier := s.earlier ++ [s.tree] })

def settle (s : Session) : Except TreeError Tree → Reply × Session
  | .ok tree => s.adopt tree
  | .error e => (.refused e,s)

def keep (s : Session) (into : String) (make : Fresh (Option Node)) : Reply × Session :=
  match s.fresh make with
  | (some n,s) => (.flag true,s.store into n)
  | (none,s) => (.flag false,s)

def withHandle (s : Session) (handle : String) (go : Node → Reply × Session) : Reply × Session :=
  match s.handle? handle with
  | some n => go n
  | none => (.unknownHandle,s)

def withHandles (s : Session) (left right : String) (go : Node → Node → Reply × Session) : Reply × Session :=
  s.withHandle left fun a => s.withHandle right fun b => go a b

def perform (s : Session) : Step → Reply × Session
  | .new handle name attributes => s.keep handle (some <$> Node.leaf name attributes)
  | .save handle path => s.keep handle (pure ((s.tree.at? path).map (·.node)))
  | .edit handle edits into => s.withHandle handle fun n => s.keep into (some <$> Edit.run edits n)
  | .push handle child into => s.withHandles handle child fun n c => s.keep into (some <$> n.pushChild c)
  | .replace handle index child into => s.withHandles handle child fun n c => s.keep into (n.replaceChild? index c)
  | .remove handle index into => s.withHandle handle fun n => s.keep into (n.removeChild? index)
  | .rebuild handle children into => s.withHandle handle fun n =>
    match children.mapM s.handle? with
    | some nodes => s.keep into (some <$> n.rebuild nodes)
    | none => (.unknownHandle,s)
  | .setRoot handle => s.withHandle handle fun n => s.settle (Tree.ofRoot n)
  | .update path edits =>
    match s.fresh (Node.updateAt? (Edit.run edits) path s.tree.root) with
    | (some root,s) => s.settle (Tree.ofRoot root)
    | (none,s) => (.flag false,s)
  | .reparent handle parent => s.withHandles handle parent fun n p =>
    let (moved,s) := s.fresh (s.tree.reparent n p)
    s.settle moved
  | .revert version =>
    match s.earlier[version]? with
    | some tree => s.adopt tree
    | none => (.flag false,s)
  | .contains handle => s.withHandle handle fun n => (.flag (s.tree.contains n),s)
  | .locate handle => s.withHandle handle fun n => (.text ((s.tree.locate? n).map Position.path),s)
  | .parent handle => s.withHandle handle fun n =>
    (.text (((s.tree.locate? n).bind Position.parent?).map Position.name),s)
  | .at path => (.text ((s.tree.at? path).map Position.path),s)
  | .same left right => s.withHandles left right fun a b => (.equality (a.same b) (a.is b),s)
  | .size handle => s.withHandle handle fun n => (.count n.size,s)
  | .mapping => (.mapping (.ofTree s.tree),s)

end Session
end SharedTree
