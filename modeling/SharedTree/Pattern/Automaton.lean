import Std.Data.HashMap
import SharedTree.Pattern.Reduced
import SharedTree.Unicode.Encoding

namespace SharedTree

-- An automaton over bytes under construction; `lists` are the bytes of branches and transitions. An
-- expression is refused when its automaton, forward or backward, takes more than ten mebibytes.
structure Draft where
  states : Nat
  lists : Nat
  deriving DecidableEq, Repr

def sizeLimit : Nat := 10485760

namespace Draft

def size (d : Draft) : Nat := 32 * d.states + d.lists

def add? (d : Draft) (states lists : Nat) : Option Draft :=
  let d : Draft := ⟨d.states + states,d.lists + lists⟩
  if d.size ≤ sizeLimit then some d else none

def lead? (d : Draft) (fork : Bool) : Option Draft := if fork then d.add? 0 4 else some d

end Draft

-- A part that has been built: what there is with it, and whether it ends in a fork.
structure Built where
  draft : Draft
  fork : Bool
  deriving DecidableEq, Repr

-- Nodes made for one set are found again by what leads on from them, through a table
-- in which a later node takes the place of an earlier one.
structure Register where
  places : Nat
  nodes : Std.HashMap Nat (List Nat × Nat)

namespace Register

def place (r : Register) (key : List Nat) : Nat :=
  let hash := key.foldl (fun (h : UInt64) n => (h ^^^ n.toUInt64) * 1099511628211) 14695981039346656037
  hash.toNat % r.places

def find? (r : Register) (key : List Nat) : Option Nat :=
  match r.nodes[r.place key]? with
  | some (found,node) => if found = key then some node else none
  | none => none

def put (r : Register) (key : List Nat) (node : Nat) : Register :=
  { r with nodes := r.nodes.insert (r.place key) (key,node) }

end Register

def node? (lists : Nat) (key : List Nat) (d : Draft) (r : Register) : Option (Nat × Draft × Register) :=
  match r.find? key with
  | some node => some (node,d,r)
  | none => do pure (d.states,← d.add? 1 lists,r.put key d.states)

def blockNode? (target : Nat) : Nat → List (List Unicode.ByteRange) → Draft → Register →
    Option (Nat × Draft × Register)
  | 0,_,_,_ => none
  | fuel + 1,blocks,d,r => do
    let groups := blocks.splitBy fun a b => a.head? == b.head?
    let (key,d,r) ← groups.foldlM (fun (key,d,r) group => do
      let rests := group.map List.tail
      let (next,d,r) ← if rests = [[]] then pure (target,d,r) else blockNode? target fuel rests d r
      match group.head?.bind List.head? with
      | some range => pure (next :: range.last :: range.first :: key,d,r)
      | none => none) (([] : List Nat),d,r)
    node? (8 * groups.length) key.reverse d r

-- Backward, every block is a branch of a fork, and blocks share the bytes they end with.
def blockChain? (target : Nat) (block : List Unicode.ByteRange) (d : Draft) (r : Register) :
    Option (Draft × Register) := do
  let (_,d,r) ← block.foldlM (fun (next,d,r) range => node? 0 [next,range.first,range.last] d r) (target,d,r)
  pure (← d.add? 0 4,r)

def buildSet? (backward : Bool) (s : CharSet) (d : Draft) : Option Draft :=
  if s.ranges.all (·.2 ≤ 0x7F) then d.add? 2 (8 * s.ranges.length)
  else
    let blocks := s.ranges.flatMap fun (first,last) => Unicode.blocks first last
    if backward then do
      let target := d.states + 1
      let (d,_) ← blocks.foldlM (fun (d,r) block => blockChain? target block d r) (← d.add? 2 0,⟨1000,{}⟩)
      pure d
    else do
      let target := d.states
      let d ← d.add? 1 0
      let (_,d,_) ← blockNode? target 4 blocks d ⟨10000,{}⟩
      pure d

-- A choice among texts is a tree over their bytes. Where a text ends, a chunk of the
-- ways on ends with it, so that texts are still tried in their order.
def chunks (texts : List (List Nat)) : List (List (List Nat)) :=
  match texts.span List.isEmpty with
  | ([],rest) => rest.splitOnP List.isEmpty
  | (_,rest) => [] :: rest.splitOnP List.isEmpty

def textNode? : Nat → List (List Nat) → Draft → Option Draft
  | 0,_,_ => none
  | fuel + 1,texts,d => do
    let chunks := chunks texts
    let (d,filled) ← chunks.foldlM (fun (d,filled) chunk => do
      let bytes := (chunk.filterMap List.head?).eraseDups
      let d ← bytes.foldlM (fun d byte => do
        let rests := (chunk.filter (·.head? == some byte)).map List.tail
        if rests.all List.isEmpty then pure d else textNode? fuel rests d) d
      match bytes with
      | [] => pure (d,filled)
      | [_] => pure (← d.add? 1 0,filled + 1)
      | _ => pure (← d.add? 1 (8 * bytes.length),filled + 1)) (d,0)
    d.add? 1 (4 * (filled + (chunks.length - 1)))

def buildTexts? (backward : Bool) (texts : List (List Nat)) (d : Draft) : Option Draft := do
  let texts := if backward then texts.map List.reverse else texts
  textNode? ((texts.map List.length).foldl max 0 + 1) texts (← d.add? 1 0)

namespace Reduced

def bytes (t : List Char) : List Nat := t.flatMap fun c => Unicode.encoded c.toNat

def text? : Reduced → Option (List Nat)
  | .text t => some (bytes t)
  | _ => none

end Reduced

def copies? (build : Draft → Option Built) : Nat → Built → Option Built
  | 0,b => some b
  | n + 1,b =>
    match build b.draft with
    | none => none
    | some next =>
      match next.draft.lead? b.fork with
      | none => none
      | some d => copies? build n ⟨d,next.fork⟩

def exactly? (build : Draft → Option Built) (n : Nat) (d : Draft) : Option Built :=
  match n with
  | 0 => do pure ⟨← d.add? 1 0,false⟩
  | n + 1 => do copies? build n (← build d)

def optional? (build : Draft → Option Built) : Nat → Built → Option Built
  | 0,b => some b
  | n + 1,b =>
    match (do
      let next ← build (← b.draft.add? 1 8)
      pure (⟨← next.draft.lead? b.fork,next.fork⟩ : Built)) with
    | none => none
    | some b => optional? build n b

def loop? (build : Draft → Option Built) (consumes : Bool) (count : Count) (d : Draft) : Option Built := do
  match count.least,count.most with
  | 0,some 1 =>
    let b ← build (← d.add? 1 8)
    pure ⟨← (← b.draft.lead? b.fork).add? 1 0,false⟩
  | 0,none =>
    if consumes then
      let b ← build (← d.add? 1 4)
      pure ⟨← b.draft.lead? b.fork,true⟩
    else
      let b ← build d
      pure ⟨← (← b.draft.lead? b.fork).add? 3 16,false⟩
  | 1,none =>
    let b ← build d
    pure ⟨← (← b.draft.lead? b.fork).add? 1 4,true⟩
  | n + 1,none =>
    let b ← copies? build 1 (← exactly? build n d)
    pure ⟨← (← b.draft.lead? b.fork).add? 1 4,true⟩
  | least,some most =>
    let b ← exactly? build least d
    if least = most then pure b
    else
      let b ← optional? build (most - least) ⟨← b.draft.add? 1 0,b.fork⟩
      pure ⟨← b.draft.lead? b.fork,false⟩

def branch? (d : Draft) (fork : Bool) : Option Draft := do (← d.add? 0 4).lead? fork

namespace Reduced

-- `further` says that the expression goes on with the branches of a choice whose fork is there.
def build? (backward : Bool) : Reduced → Bool → Draft → Option Built
  | .either p q,true,d => do
    let b ← p.build? backward false d
    q.build? backward true (← branch? b.draft b.fork)
  | .either p q,false,d =>
    match (Reduced.either p q).branches.mapM text? with
    | some texts => do pure ⟨← buildTexts? backward texts d,false⟩
    | none => do
      let b ← p.build? backward false d
      match q with
      | .either q rest =>
        let c ← q.build? backward false b.draft
        let d ← branch? (← branch? (← c.draft.add? 2 0) b.fork) c.fork
        rest.build? backward true d
      | q =>
        let c ← q.build? backward false b.draft
        pure ⟨← branch? (← branch? (← c.draft.add? 2 0) b.fork) c.fork,false⟩
  | .seq p q,further,d => do
    let first ← if backward then q.build? backward false d else p.build? backward false d
    let second ← if backward then p.build? backward false first.draft else q.build? backward false first.draft
    ending further ⟨← second.draft.lead? first.fork,second.fork⟩
  | .capture _ p,further,d => do
    if backward then ending further (← p.build? backward false d)
    else
      let b ← p.build? backward false (← d.add? 1 0)
      ending further ⟨← (← b.draft.lead? b.fork).add? 1 0,false⟩
  | .loop p count _,further,d => do
    ending further (← loop? (p.build? backward false) p.consumes count d)
  | .chars s,further,d => do ending further ⟨← buildSet? backward s d,false⟩
  | .text t,further,d => do ending further ⟨← d.add? (bytes t).length 0,false⟩
  | .empty,further,d => do ending further ⟨← d.add? 1 0,false⟩
  | .assert _,further,d => do ending further ⟨← d.add? 1 0,false⟩
where
  ending (further : Bool) (b : Built) : Option Built :=
    if further then do pure ⟨← branch? b.draft b.fork,false⟩ else some b

-- In front of the expression stands what skips the text before a match, or nothing
-- where a match can only start at the end of the text that is read first.
def automaton? (backward : Bool) (p : Reduced) : Option Draft := do
  let bound := if backward then p.endsAt .textEnd else p.startsAt .textStart
  let d ← if bound then Draft.add? ⟨0,0⟩ 1 0 else Draft.add? ⟨0,0⟩ 3 16
  let b ← if backward then p.build? backward false d else (Reduced.capture 0 p).build? backward false d
  (← b.draft.lead? b.fork).add? 1 0

def fits (p : Reduced) : Bool := (p.automaton? false).isSome && (p.automaton? true).isSome

end Reduced
end SharedTree
