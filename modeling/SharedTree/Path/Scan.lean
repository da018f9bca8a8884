import SharedTree.Path.Error
import SharedTree.Number.Decimal

namespace SharedTree.Path

structure RawSegment where
  start : Nat
  name : List Char
  regex : Bool
  filters : List (List Char)
  deriving DecidableEq, Repr

namespace RawSegment

def fresh (start : Nat) : RawSegment := ⟨start,[],false,[]⟩

def isBlank (s : RawSegment) : Bool := s.name.isEmpty && !s.regex && s.filters.isEmpty

def isSign (c : Char) : Bool := c == '-' || c == '+'

def afterColon? (name : List Char) : Option (List Char) :=
  if name.contains ':' then some ((name.reverse.takeWhile (· != ':')).reverse) else none

def beforeColon (name : List Char) : List Char :=
  ((name.reverse.dropWhile (· != ':')).drop 1).reverse

-- Within the whole part of a threshold, where a dot before a digit is the decimal point.
def inThreshold (s : RawSegment) : Bool :=
  !s.regex && s.name.head? == some '%' && s.filters.isEmpty &&
    match afterColon? s.name with
    | some threshold =>
      let digits := threshold.dropWhile isSign
      !digits.isEmpty && digits.all Decimal.isDigit
    | none => false

def push (s : RawSegment) (c : Char) : Except PathFault RawSegment :=
  match s.filters.getLast? with
  | some filter => .error (.invalidFilter (String.ofList filter) (.trailing c))
  | none => .ok { s with name := s.name ++ [c] }

end RawSegment

-- A filter from its opening bracket on: nested brackets count, quoted text does not.
structure OpenFilter where
  start : Nat
  depth : Nat
  quote : Option Char
  text : List Char
  deriving DecidableEq, Repr

structure Scan where
  done : List RawSegment
  current : RawSegment
  classes : List Nat
  filter : Option OpenFilter
  deriving DecidableEq, Repr

namespace Scan

def start : Scan := ⟨[],.fresh 0,[],none⟩

def push (s : Scan) (c : Char) : Except PathFault Scan :=
  match s.current.push c with
  | .ok current => .ok { s with current := current }
  | .error fault => .error fault

def push2 (s : Scan) (c d : Char) : Except PathFault Scan :=
  match s.push c with
  | .ok s => s.push d
  | .error fault => .error fault

def separate (s : Scan) (position : Nat) : Scan :=
  { s with done := s.current :: s.done, current := .fresh (position + 1) }

def inFilter (s : Scan) (f : OpenFilter) (c : Char) : Scan :=
  let taken := { f with text := f.text ++ [c] }
  match f.quote with
  | some quote => { s with filter := some (if c = quote then { taken with quote := none } else taken) }
  | none =>
    if c = '\'' ∨ c = '"' then { s with filter := some { taken with quote := some c } }
    else if c = '[' then { s with filter := some { taken with depth := f.depth + 1 } }
    else if c = ']' then
      if f.depth = 0 then { s with filter := none, current := { s.current with filters := s.current.filters ++ [f.text] } }
      else { s with filter := some { taken with depth := f.depth - 1 } }
    else { s with filter := some taken }

-- An escape outside filters. A regular expression keeps all escapes but that of the dot.
def escaped (s : Scan) (position : Nat) (c : Char) : Except PathFault Scan :=
  if s.current.regex then if c = '.' then s.push c else s.push2 '\\' c
  else if c = '.' ∨ c = '\\' then s.push c
  else .error (.invalidEscape position)

def plain (s : Scan) (position : Nat) (c : Char) (next : Option Char) : Except PathFault Scan :=
  if c = '~' ∧ s.current.isBlank then .ok { s with current := { s.current with regex := true } }
  else if c = '.' then
    if !s.classes.isEmpty then s.push c
    else if s.current.inThreshold ∧ next.any Decimal.isDigit then s.push c
    else .ok (s.separate position)
  else if c = '[' then
    if s.current.regex then { s with classes := position :: s.classes }.push c
    else .ok { s with filter := some ⟨position,0,none,[]⟩ }
  else if c = ']' then
    if s.current.regex ∧ !s.classes.isEmpty then { s with classes := s.classes.drop 1 }.push c
    else .error (.unbalanced ']' position)
  else s.push c

def finish (s : Scan) : Except PathFault (List RawSegment) :=
  match s.filter,s.classes.getLast? with
  | some f,_ => .error (.unbalanced '[' f.start)
  | none,some position => .error (.unbalanced '[' position)
  | none,none => .ok (s.current :: s.done).reverse

def run (s : Scan) (position : Nat) : List Char → Except PathFault (List RawSegment)
  | [] => s.finish
  | c :: rest =>
    match s.filter with
    | some f => run (s.inFilter f c) (position + c.utf8Size) rest
    | none =>
      if c = '\\' then
        match rest with
        | [] => .error (.invalidEscape position)
        | e :: rest =>
          match s.escaped position e with
          | .ok s => run s (position + c.utf8Size + e.utf8Size) rest
          | .error fault => .error fault
      else
        match s.plain position c rest.head? with
        | .ok s => run s (position + c.utf8Size) rest
        | .error fault => .error fault

end Scan

def rawSegments (source : List Char) : Except PathFault (List RawSegment) := Scan.start.run 0 source

end SharedTree.Path
