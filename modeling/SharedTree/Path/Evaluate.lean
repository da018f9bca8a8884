import SharedTree.Path.Match
import SharedTree.Tree.Walk

namespace SharedTree

-- The marks of a node say which places of the expression are live there: mark `i` stands in front
-- of segment `i`, the last one behind them all. A node is found when the last mark is set, and
-- nothing below a node without marks, or with the last one only, is looked at.
abbrev Marks := List Bool

namespace Marks

def start (segments : List Segment) : Marks := true :: segments.map fun _ => false

-- Takes one node. A deep wildcard stays live and a step moves past itself;
-- `moved` tells whether the segment before was such a step.
def consume (name : String) : Bool → List Segment → Marks → Marks
  | moved,segment :: segments,live :: marks =>
    (moved || (live && segment matches .deep)) :: consume name (live && segment.acceptsName name) segments marks
  | moved,_,_ => [moved]

-- The segments that can be passed without leaving the node. Above the root
-- there are no attributes, so no filter passes.
def passes (attributes : Option Attributes) (segment : Segment) : Bool :=
  match segment with
  | .deep => true
  | _ => attributes.any segment.acceptsAttributes

def settle (attributes : Option Attributes) : List Segment → Marks → Marks
  | segment :: segments,live :: next :: marks =>
    live :: settle attributes segments ((next || (live && passes attributes segment)) :: marks)
  | _,marks => marks

def any (marks : Marks) : Bool := List.any marks id

def unfinished (marks : Marks) : Bool := Marks.any (List.dropLast marks)
def complete (marks : Marks) : Bool := marks.getLast?.getD false

end Marks

namespace PathExpr

def initial (e : PathExpr) : Marks := Marks.settle none e.segments (Marks.start e.segments)

def advance? (e : PathExpr) (marks : Marks) (n : Node) : Option Marks :=
  let consumed := Marks.consume n.name false e.segments marks
  if Marks.any consumed then some (Marks.settle (some n.attributes) e.segments consumed) else none

def acceptsFrom (e : PathExpr) (marks : Marks) : List Node → Bool
  | [] => Marks.complete marks
  | n :: chain =>
    match e.advance? marks n with
    | none => false
    | some marks => e.acceptsFrom marks chain

def accepts (e : PathExpr) (chain : List Node) : Bool := e.acceptsFrom e.initial chain
def selects (e : PathExpr) (p : Position) : Bool := e.accepts p.chain

-- The nodes still to be looked at, next first, each with the marks above it.
structure Search where
  pending : List (Position × Marks)

namespace Search

def weight (search : Search) : Nat := Node.sizeAll (search.pending.map (·.1.node))

theorem weight_children (p : Position) (marks : Marks) (rest : List (Position × Marks)) :
    (⟨p.children.map (·,marks) ++ rest⟩ : Search).weight = Node.sizeAll p.node.children + (⟨rest⟩ : Search).weight := by
  simp [weight,Position.children,Position.under,Function.comp_def,Node.sizeAll_append]

theorem weight_cons (p : Position) (marks : Marks) (rest : List (Position × Marks)) :
    (⟨(p,marks) :: rest⟩ : Search).weight = 1 + Node.sizeAll p.node.children + (⟨rest⟩ : Search).weight := by
  simp only [weight,List.map_cons,Node.sizeAll,Node.size_eq]

end Search

def search (e : PathExpr) : Search → List Position
  | ⟨[]⟩ => []
  | ⟨(p,above) :: rest⟩ =>
    match e.advance? above p.node with
    | none => e.search ⟨rest⟩
    | some marks =>
      let later := if Marks.unfinished marks then p.children.map (·,marks) ++ rest else rest
      if Marks.complete marks then p :: e.search ⟨later⟩ else e.search ⟨later⟩
termination_by s => s.weight
decreasing_by
  · rw [Search.weight_cons]; omega
  all_goals
    rw [Search.weight_cons]
    split
    · rw [Search.weight_children]; omega
    · omega

def evaluate (e : PathExpr) (start : Position) : List Position := e.search ⟨[(start,e.initial)]⟩

end PathExpr
end SharedTree
