import SharedTree.Value.Basic
import SharedTree.Pattern.Engine

namespace SharedTree

inductive Operand where
  | attribute (key : String)
  | literal (value : Value)
  deriving Repr

inductive Comparison where
  | equal
  | notEqual
  | less
  | atMost
  | greater
  | atLeast
  deriving DecidableEq, Repr

inductive Predicate where
  | or (a b : Predicate)
  | and (a b : Predicate)
  | compare (left : Operand) (op : Comparison) (right : Operand)
  | truthy (operand : Operand)
  deriving Repr

inductive Segment where
  | literal (name : String)
  | one
  | deep
  | glob (pattern : String)
  | regex (source : String) (compiled : Regex)
  | fuzzy (name : String) (threshold : Binary64)
  | equals (key : String) (value : Value) (bare : Option String)
  | present (key : String)
  | predicate (p : Predicate)

namespace Segment

def isStep : Segment → Bool
  | literal _ | one | glob _ | regex _ _ | fuzzy _ _ => true
  | _ => false

def isFilter : Segment → Bool
  | equals _ _ _ | present _ | predicate _ => true
  | _ => false

def isLiteral : Segment → Bool
  | literal _ => true
  | _ => false

end Segment

structure PathExpr where
  source : String
  segments : List Segment

namespace PathExpr

def isLiteral (e : PathExpr) : Bool := e.segments.all Segment.isLiteral

end PathExpr
end SharedTree
