import SharedTree.Path.Compile

namespace SharedTree
namespace Path

-- There is no result where an offset is no boundary of characters or where a count of brackets
-- would go below zero.
def located (position : Nat) : List Char → List (Nat × Char)
  | [] => []
  | c :: rest => (position,c) :: located (position + c.utf8Size) rest

def from? : List Char → Nat → Option (List Char)
  | text,0 => some text
  | [],_ + 1 => none
  | c :: text,offset => if c.utf8Size ≤ offset then from? text (offset - c.utf8Size) else none

def upTo? : List Char → Nat → Option (List Char)
  | _,0 => some []
  | [],_ + 1 => none
  | c :: text,offset => if c.utf8Size ≤ offset then (upTo? text (offset - c.utf8Size)).map (c :: ·) else none

def between? (text : List Char) (first last : Nat) : Option (List Char) :=
  if first ≤ last then (from? text first).bind fun rest => upTo? rest (last - first) else none

def closingFrom? (first depth : Nat) (quote : Option Char) : List (Nat × Char) → Option (Except PathFault Nat)
  | [] => some (.error (.unbalanced '[' first))
  | (offset,c) :: rest =>
    match quote with
    | some mark => closingFrom? first depth (if c = mark then none else some mark) rest
    | none =>
      if c = '\'' ∨ c = '"' then closingFrom? first depth (some c) rest
      else if c = '[' then closingFrom? first (depth + 1) none rest
      else if c = ']' then
        match depth with
        | 0 => none
        | depth + 1 => if depth = 0 then some (.ok (first + offset)) else closingFrom? first depth none rest
      else closingFrom? first depth none rest

def closing? (source : List Char) (first : Nat) : Option (Except PathFault Nat) :=
  (from? source first).bind fun rest => closingFrom? first 0 none (located 0 rest)

def Scan.filtered (s : Scan) (text : List Char) : Scan :=
  { s with current := { s.current with filters := s.current.filters ++ [text] } }

def Scan.cut? (source : List Char) (s : Scan) : List (Nat × Char) → Option (Except PathFault (List RawSegment))
  | [] => some s.finish
  | (position,c) :: rest =>
    if c = '\\' then
      match rest with
      | [] => some (.error (.invalidEscape position))
      | (_,e) :: rest =>
        match s.escaped position e with
        | .ok s => s.cut? source rest
        | .error fault => some (.error fault)
    else if c = '[' ∧ s.current.regex = false then
      match closing? source position with
      | none => none
      | some (.error fault) => some (.error fault)
      | some (.ok last) =>
        match between? source (position + 1) last with
        | none => none
        | some text => (s.filtered text).cut? source (rest.dropWhile (·.1 ≤ last))
    else
      match s.plain position c (rest.head?.map (·.2)) with
      | .ok s => s.cut? source rest
      | .error fault => some (.error fault)
termination_by text => text.length
decreasing_by
  · simp only [List.length_cons]; omega
  · exact Nat.lt_succ_of_le (List.dropWhile_suffix _).length_le
  · exact Nat.lt_succ_self _

end Path

namespace PathExpr

def ofCut [Regex.Engine] (settings : Path.Settings) (source : String) (cut : Except PathFault (List Path.RawSegment)) :
    Except PathError PathExpr :=
  match cut with
  | .error fault => .error ⟨source,fault⟩
  | .ok raw =>
    match Path.allSegments settings raw with
    | .error fault => .error ⟨source,fault⟩
    | .ok segments => .ok ⟨source,segments⟩

def compileByOffsets? [Regex.Engine] (settings : Path.Settings) (source : String) : Option (Except PathError PathExpr) :=
  (Path.Scan.start.cut? source.toList (Path.located 0 source.toList)).map (ofCut settings source)

end PathExpr
end SharedTree
