import SharedTree.Selector.Basic
import SharedTree.Transform.Error

namespace SharedTree

-- What transforms take and record on their way: both outlive a failure.
structure Effects where
  next : Nat
  calls : List String
  deriving DecidableEq, Repr

abbrev Work := StateM Effects

namespace Work

def fresh (make : Fresh α) : Work α := fun effects =>
  let (a,next) := make.run effects.next
  (a,{ effects with next })

def judge (s : Selector) (p : Position) : Work Bool := fun effects =>
  let verdict := s.verdict p
  (verdict.answer,{ effects with calls := effects.calls ++ verdict.calls })

def noting (calls : List String) : Work Unit := fun effects =>
  ((),{ effects with calls := effects.calls ++ calls })

end Work

structure Transform where
  label : String
  apply : Tree → Work (Except TransformError Tree)

namespace Transform

def identity : Transform := ⟨"identity",fun tree => pure (.ok tree)⟩

def followedBy (first second : Transform) : Transform where
  label := first.label ++ " >> " ++ second.label
  apply input := do
    match ← first.apply input with
    | .ok tree => second.apply tree
    | .error e => pure (.error e)

-- The fallback sees the input itself, and is only run when the first transform
-- changes nothing. When neither does, the input comes back.
def orElse (first fallback : Transform) : Transform where
  label := first.label ++ " || " ++ fallback.label
  apply input := do
    match ← first.apply input with
    | .error e => pure (.error e)
    | .ok tree =>
      if tree.same input then
        match ← fallback.apply input with
        | .error e => pure (.error e)
        | .ok other => pure (.ok (if other.same input then input else other))
      else pure (.ok tree)

-- Wraps a rebuilt root; the very same root stands for the input itself.
def finish (input : Tree) (root : Node) : Except TransformError Tree :=
  if root.is input.root then .ok input
  else
    match Tree.ofRoot root with
    | .ok tree => .ok tree
    | .error e => .error (.tree e)

end Transform
end SharedTree
