import SharedTree.Mapping.Json
import SharedTree.Selector.Find
import SharedTree.Transform.Basic

namespace SharedTree

structure Shaper where
  label : String
  apply : Tree → Work (Except TransformError Value)

namespace Shaper

def pureOf (label : String) (value : Tree → Value) : Shaper := ⟨label,fun tree => pure (.ok (value tree))⟩

def fold (order : Order) (start : Value) (combine : Value → Position → Value) : Shaper :=
  pureOf "fold" fun tree => tree.top.fold order start combine

def append : Value → Value → Value
  | .array items,item => .array (items ++ [item])
  | value,_ => value

def paths (order : Order) : Shaper := fold order (.array []) fun found p => append found (.string p.path)
def depths (order : Order) : Shaper := fold order (.array []) fun found p => append found (.int p.depth)

def isWord (n : Int) : Bool := -(twoTo 63 : Int) ≤ n && n < (twoTo 63 : Int)
def wrap (n : Int) : Int := n.bmod (twoTo 64)

-- What is no word counts as nothing.
def word : Value → Int
  | .number (.int n) => if isWord n then n else 0
  | _ => 0

def sum (order : Order) (key : String) : Shaper :=
  fold order (.int 0) fun total p => .int (wrap (word total + ((p.node.attribute? key).map word).getD 0))

def count (s : Selector) : Shaper where
  label := "count"
  apply tree := do
    let (found,calls) := s.findAll tree.top
    Work.noting calls
    pure (.ok (.int found.length))

def collectNames (order : Order) : Shaper :=
  pureOf "collect_names" fun tree => .array ((tree.top.inOrder order).map fun p => .string p.name)

def toMapping : Shaper := pureOf "to_mapping" fun tree => (Mapping.ofTree tree).value

end Shaper

def Transform.shape (t : Transform) (s : Shaper) : Shaper where
  label := t.label ++ " >> " ++ s.label
  apply input := do
    match ← t.apply input with
    | .ok tree => s.apply tree
    | .error e => pure (.error e)

end SharedTree
