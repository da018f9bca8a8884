import SharedTree.Pattern.Basic

namespace SharedTree

-- Texts and sets are joined where they stand side by side, no part is always empty, and sequences
-- and alternatives lean to the right.
inductive Reduced where
  | empty
  | text (chars : List Char)
  | chars (allowed : CharSet)
  | assert (a : Assertion)
  | loop (p : Reduced) (count : Count) (greedy : Bool)
  | capture (index : Nat) (p : Reduced)
  | seq (a b : Reduced)
  | either (a b : Reduced)
  deriving DecidableEq, Repr

namespace Reduced

def ofSet (s : CharSet) : Reduced :=
  match s.ranges with
  | [(first,last)] => if first = last then .text [Char.ofNat first] else .chars s
  | _ => .chars s

def attach : Reduced → Reduced → Reduced
  | .text a,.text b => .text (a ++ b)
  | .text a,.seq (.text b) rest => .seq (.text (a ++ b)) rest
  | p,.empty => p
  | p,rest => .seq p rest

def andThen : Reduced → Reduced → Reduced
  | .empty,rest => rest
  | .seq p q,rest => p.attach (q.andThen rest)
  | p,rest => p.attach rest

def items : Reduced → List Reduced
  | .seq p rest => p :: rest.items
  | p => [p]

def sequence (ps : List Reduced) : Reduced := ps.foldr andThen .empty

def branches : Reduced → List Reduced
  | .either p rest => p :: rest.branches
  | p => [p]

def choice : List Reduced → Reduced
  | [] => .chars .empty
  | [p] => p
  | p :: rest => .either p (choice rest)

def single? : Reduced → Option Nat
  | .text [c] => some c.toNat
  | _ => none

def set? : Reduced → Option CharSet
  | .chars s => some s
  | _ => none

def common : List Reduced → List Reduced → List Reduced
  | p :: ps,q :: qs => if p = q then p :: common ps qs else []
  | _,_ => []

def sharedStart : List Reduced → List Reduced
  | [] => []
  | .seq p rest :: ps =>
    ps.foldl (fun shared q => match q with
      | .seq _ _ => common shared q.items
      | _ => []) (Reduced.seq p rest).items
  | _ :: _ => []

-- Characters side by side are one set, and so are sets; what all branches start with stands in front.
def alternatives : Nat → List Reduced → Reduced
  | _,[p] => p
  | 0,ps => choice ps
  | fuel + 1,ps =>
    let ps := ps.flatMap branches
    match ps.mapM single?,ps.mapM set? with
    | some codes,_ => ofSet (.ofCodes codes)
    | none,some sets => ofSet (sets.foldl .union .empty)
    | none,none =>
      match sharedStart ps with
      | [] => choice ps
      | shared =>
        let rests := ps.map fun p => sequence (p.items.drop shared.length)
        sequence (shared ++ [alternatives fuel rests])

def weight : Reduced → Nat
  | .loop p _ _ => p.weight + 1
  | .capture _ p => p.weight + 1
  | .seq p q => p.weight + q.weight + 1
  | .either p q => p.weight + q.weight + 1
  | _ => 1

def alternative (ps : List Reduced) : Reduced := alternatives ((ps.map weight).foldl (· + ·) 0) ps

def silent : Reduced → Bool
  | .empty => true
  | .text _ => false
  | .chars _ => false
  | .assert _ => true
  | .loop p count _ => p.silent && count.most.isSome
  | .capture _ p => p.silent
  | .seq p q => p.silent && q.silent
  | .either p q => p.silent && q.silent

def least? : Reduced → Option Nat
  | .empty => some 0
  | .text t => some t.length
  | .chars s => if s.ranges.isEmpty then none else some 1
  | .assert _ => some 0
  | .loop p count _ => p.least?.map (· * count.least)
  | .capture _ p => p.least?
  | .seq p q => do pure ((← p.least?) + (← q.least?))
  | .either p q => do pure (min (← p.least?) (← q.least?))

def consumes (p : Reduced) : Bool := p.least?.any (0 < ·)

-- More rounds than one of what is always empty are as good as one.
def repeated (p : Reduced) (count : Count) (greedy : Bool) : Reduced :=
  let count := if p.silent then ⟨min count.least 1,some (min (count.most.getD 1) 1)⟩ else count
  if count = ⟨0,some 0⟩ then .empty
  else if count = ⟨1,some 1⟩ then p
  else .loop p count greedy

def startsAt (a : Assertion) : Reduced → Bool
  | .assert b => a == b
  | .loop p count _ => 0 < count.least && p.startsAt a
  | .capture _ p => p.startsAt a
  | .seq p q => p.startsAt a || p.silent && q.startsAt a
  | .either p q => p.startsAt a && q.startsAt a
  | _ => false

def endsAt (a : Assertion) : Reduced → Bool
  | .assert b => a == b
  | .loop p count _ => 0 < count.least && p.endsAt a
  | .capture _ p => p.endsAt a
  | .seq p q => q.endsAt a || q.silent && p.endsAt a
  | .either p q => p.endsAt a && q.endsAt a
  | _ => false

end Reduced

namespace Pattern

def reducedBranches : Pattern → List Reduced
  | .empty => [.empty]
  | .chars allowed => [.ofSet allowed]
  | .assert a => [.assert a]
  | .seq p q => [(Reduced.alternative p.reducedBranches).andThen (.alternative q.reducedBranches)]
  | .either p q => .alternative p.reducedBranches :: q.reducedBranches
  | .loop p count greedy => [(Reduced.alternative p.reducedBranches).repeated count greedy]
  | .group none p => [.alternative p.reducedBranches]
  | .group (some index) p => [.capture index (.alternative p.reducedBranches)]

def reduced (p : Pattern) : Reduced := .alternative p.reducedBranches

end Pattern
end SharedTree
