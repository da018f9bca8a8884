import SharedTree.Pattern.Basic

namespace SharedTree

-- What is under way in an expression stands at the places that the last character led to, so every
-- character is looked at once and no thread is kept twice. Threads inside a loop are kept by the
-- rounds that remain after theirs.
inductive Threads where
  | idle
  | here
  | pair (a b : Threads)
  | rounds (under : List (Count × Threads))

namespace Threads

def isIdle : Threads → Bool
  | idle => true
  | _ => false

def first : Threads → Threads
  | pair a _ => a
  | _ => idle

def second : Threads → Threads
  | pair _ b => b
  | _ => idle

def underWay : Threads → List (Count × Threads)
  | rounds under => under
  | _ => []

def both (a b : Threads) : Threads := if a.isIdle && b.isIdle then idle else pair a b

def ofRounds (under : List (Count × Threads)) : Threads :=
  match under.filter fun (_,t) => !t.isIdle with
  | [] => idle
  | under => rounds under

end Threads

-- What remains after one more round. Where a round may match nothing, the rounds
-- that must be made can be made at once.
def Count.next (count : Count) (skips : Bool) : Option Count :=
  if count.most = some 0 then none
  else some ⟨if skips then 0 else count.least - 1,count.most.map (· - 1)⟩

def Count.covers (wide count : Count) : Bool :=
  wide.least ≤ count.least && match wide.most,count.most with
    | none,_ => true
    | some _,none => false
    | some most,some n => n ≤ most

def Count.widest (counts : List Count) : List Count :=
  let counts := counts.eraseDups
  counts.filter fun count => !counts.any fun wide => wide != count && wide.covers count

namespace Pattern

def skips (b : Boundary) : Pattern → Bool
  | .empty => true
  | .chars _ => false
  | .assert a => a.holds b
  | .seq p q => p.skips b && q.skips b
  | .either p q => p.skips b || q.skips b
  | .loop p count _ => count.least == 0 || p.skips b
  | .group _ p => p.skips b

def exits (b : Boundary) : Pattern → Threads → Bool
  | .empty,_ => false
  | .chars _,t => !t.isIdle
  | .assert _,_ => false
  | .seq p q,t => q.exits b t.second || p.exits b t.first && q.skips b
  | .either p q,t => p.exits b t.first || q.exits b t.second
  | .loop p _ _,t => t.underWay.any fun (count,t) => p.exits b t && (count.least == 0 || p.skips b)
  | .group _ p,t => p.exits b t

-- Takes the character after a boundary; `enters` says that a thread stands in front of the expression.
def step (b : Boundary) (c : Char) : Pattern → Bool → Threads → Threads
  | .empty,_,_ => .idle
  | .chars allowed,enters,_ => if enters && allowed.contains c then .here else .idle
  | .assert _,_,_ => .idle
  | .seq p q,enters,t =>
    if !enters && t.isIdle then .idle
    else
      .both (p.step b c enters t.first)
        (q.step b c (enters && p.skips b || p.exits b t.first) t.second)
  | .either p q,enters,t =>
    if !enters && t.isIdle then .idle
    else .both (p.step b c enters t.first) (q.step b c enters t.second)
  | .loop p count _,enters,t =>
    if !enters && t.isIdle then .idle
    else
      let skips := p.skips b
      let done := t.underWay.filterMap fun (count,t) => if p.exits b t then some count else none
      let entered := Count.widest ((if enters then count :: done else done).filterMap (·.next skips))
      let going := t.underWay.map fun (count,t) => (count,p.step b c (entered.contains count) t)
      let fresh := entered.filter fun count => !t.underWay.any (·.1 == count)
      .ofRounds (fresh.map (fun count => (count,p.step b c true .idle)) ++ going)
  | .group _ p,enters,t => p.step b c enters t

def foundFrom (p : Pattern) (before : Option Char) (t : Threads) : List Char → Bool
  | [] => p.skips ⟨before,none⟩ || p.exits ⟨before,none⟩ t
  | c :: rest =>
    let b := ⟨before,some c⟩
    p.skips b || p.exits b t || p.foundFrom (some c) (p.step b c true t) rest

def found (p : Pattern) (text : List Char) : Bool := p.foundFrom none .idle text

end Pattern
end SharedTree
