import SharedTree.Text.Quoted

namespace SharedTree

inductive FilterFault where
  | trailing (c : Char)
  | missingName
  | empty
  | unexpected (rest : String)
  | parenthesis (rest : String)
  | operand (rest : String)
  deriving DecidableEq, Repr

namespace FilterFault

def parserText (rest code : String) : String :=
  "Parsing Error: Error \x7b input: " ++ Text.quoted rest ++ ", code: " ++ code ++ " \x7d"

def message : FilterFault → String
  | trailing c => s!"unexpected '{c}' after filter"
  | missingName => "missing attribute name"
  | empty => "empty filter"
  | unexpected rest => s!"unexpected input '{rest}'"
  | parenthesis rest => parserText rest "Char"
  | operand rest => parserText rest "Tag"

end FilterFault

-- Positions count bytes.
inductive PathFault where
  | unbalanced (bracket : Char) (position : Nat)
  | invalidEscape (position : Nat)
  | invalidRegex (pattern : String)
  | threshold (text : String)
  | emptySegment (position : Nat)
  | invalidFilter (filter : String) (fault : FilterFault)
  deriving DecidableEq, Repr

structure PathError where
  expression : String
  fault : PathFault
  deriving DecidableEq, Repr

def PathError.message? (e : PathError) : Option String :=
  let expression := e.expression
  match e.fault with
  | .unbalanced bracket position => some s!"Unbalanced '{bracket}' at position {position} in '{expression}'"
  | .invalidEscape position => some s!"Invalid escape sequence at position {position} in '{expression}'"
  | .invalidRegex _ => none
  | .threshold text => some s!"Fuzzy threshold '{text}' in '{expression}' must be a number between 0 and 1"
  | .emptySegment position => some s!"Empty segment at position {position} in '{expression}'"
  | .invalidFilter filter fault => some s!"Invalid filter '[{filter}]' in '{expression}': {fault.message}"

end SharedTree
