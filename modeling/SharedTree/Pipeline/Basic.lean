import SharedTree.Transform.Shaper

namespace SharedTree

inductive Stage where
  | transform (t : Transform)
  | shaper (s : Shaper)

namespace Stage

def label : Stage → String
  | transform t => t.label
  | shaper s => s.label

def isShaper : Stage → Bool
  | transform _ => false
  | shaper _ => true

def shown : Stage → String
  | transform t => "Transform(Transform(" ++ Text.quoted t.label ++ "))"
  | shaper s => "Shaper(Shaper(" ++ Text.quoted s.label ++ "))"

end Stage

structure Report where
  index : Nat
  label : String
  nodesIn : Nat
  nodesOut : Option Nat
  deriving DecidableEq, Repr

def Report.text (r : Report) : String :=
  match r.nodesOut with
  | some out => s!"stage {r.index} '{r.label}': {r.nodesIn} -> {out} nodes"
  | none => s!"stage {r.index} '{r.label}': {r.nodesIn} nodes -> value"

inductive Output where
  | tree (t : Tree)
  | value (v : Value)

structure Pipeline where
  stages : List Stage
  debug : Bool
  observed : Bool

namespace Pipeline

def empty : Pipeline := ⟨[],false,false⟩
def ofTransform (t : Transform) : Pipeline := ⟨[.transform t],false,false⟩
def ofShaper (s : Shaper) : Pipeline := ⟨[.shaper s],false,false⟩
def withDebug (p : Pipeline) (debug : Bool) : Pipeline := { p with debug }
def withObserver (p : Pipeline) : Pipeline := { p with observed := true }

def isTerminal (p : Pipeline) : Bool := p.stages.getLast?.any Stage.isShaper

def append (p : Pipeline) (stage : Stage) : Except TransformError Pipeline :=
  match p.stages.getLast? with
  | some (.shaper s) => .error (.typeMismatch s.label stage.label)
  | _ => .ok { p with stages := p.stages ++ [stage] }

def runFrom (index : Nat) : List Stage → Tree → Work (Except TransformError Output × List Report)
  | [],tree => pure (.ok (.tree tree),[])
  | .shaper s :: _,tree => do
    match ← s.apply tree with
    | .ok value => pure (.ok (.value value),[⟨index,s.label,tree.size,none⟩])
    | .error e => pure (.error e,[])
  | .transform t :: rest,tree => do
    match ← t.apply tree with
    | .ok next =>
      let (output,reports) ← runFrom (index + 1) rest next
      pure (output,⟨index,t.label,tree.size,some next.size⟩ :: reports)
    | .error e => pure (.error e,[])

def run (p : Pipeline) (input : Tree) : Work (Except TransformError Output × List Report) := do
  let (output,reports) ← runFrom 0 p.stages input
  pure (output,if p.debug && p.observed then reports else [])

def shown (p : Pipeline) : String :=
  "Pipeline \x7b stages: [" ++ String.intercalate ", " (p.stages.map Stage.shown) ++
    "], config: PipelineConfig \x7b debug: " ++ toString p.debug ++ " \x7d, observer: " ++ toString p.observed ++ " \x7d"

end Pipeline
end SharedTree
