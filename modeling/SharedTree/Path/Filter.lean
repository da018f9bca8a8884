import SharedTree.Path.Segment
import SharedTree.Path.Error
import SharedTree.Number.Decimal
import SharedTree.Unicode.Alphabetic
import SharedTree.Unicode.Blank

namespace SharedTree.Path

def trim (s : List Char) : List Char :=
  ((s.dropWhile Unicode.isBlank).reverse.dropWhile Unicode.isBlank).reverse

def quotedLiteral? : List Char → Option (Value × List Char)
  | q :: rest =>
    if q = '\'' ∨ q = '"' then
      match rest.span (· != q) with
      | (_,[]) => none
      | (text,_ :: rest) => some (.string (String.ofList text),rest)
    else none
  | [] => none

def fractionPart? : List Char → Option (List Char × List Char)
  | '.' :: rest =>
    match rest.span Decimal.isDigit with
    | ([],_) => none
    | found => some found
  | _ => none

def exponentPart? : List Char → Option ((Bool × List Char) × List Char)
  | e :: rest =>
    if e = 'e' ∨ e = 'E' then
      let (below,rest) := match rest with
        | '-' :: rest => (true,rest)
        | '+' :: rest => (false,rest)
        | rest => (false,rest)
      match rest.span Decimal.isDigit with
      | ([],_) => none
      | (digits,rest) => some ((below,digits),rest)
    else none
  | [] => none

def decimalOf (negative : Bool) (whole fraction : List Char) (below : Bool) (exponent : List Char) : Decimal :=
  let power : Int := Decimal.value 0 exponent
  ⟨negative,Decimal.value 0 (whole ++ fraction),(if below then -power else power) - fraction.length⟩

-- A whole number within 64 bits is an integer, any other numeral a float; one
-- beyond the floats has no value.
def numeralValue (negative : Bool) (whole : List Char) (fraction : Option (List Char))
    (exponent : Option (Bool × List Char)) : Value :=
  let n := Decimal.value 0 whole
  let fits := if negative then n ≤ twoTo 63 else n < twoTo 63
  if fraction.isNone ∧ exponent.isNone ∧ fits then .int (if negative then -(n : Int) else n)
  else
    let (below,power) := exponent.getD (false,[])
    match (decimalOf negative whole (fraction.getD []) below power).nearest? with
    | some x => .float x
    | none => .null

def numeralLiteral? (s : List Char) : Option (Value × List Char) :=
  let (negative,rest) := match s with
    | '-' :: rest => (true,rest)
    | rest => (false,rest)
  match rest.span Decimal.isDigit with
  | ([],_) => none
  | (whole,rest) =>
    let (fraction,rest) := match fractionPart? rest with
      | some (digits,rest) => (some digits,rest)
      | none => (none,rest)
    let (exponent,rest) := match exponentPart? rest with
      | some (found,rest) => (some found,rest)
      | none => (none,rest)
    some (numeralValue negative whole fraction exponent,rest)

def word? (word : String) (s : List Char) : Option (List Char) :=
  if word.toList.isPrefixOf s then some (s.drop word.toList.length) else none

def wordLiteral? (s : List Char) : Option (Value × List Char) :=
  ((word? "null" s).map (.null,·)) <|> ((word? "true" s).map (.bool true,·)) <|> ((word? "false" s).map (.bool false,·))

def literal? (s : List Char) : Option (Value × List Char) :=
  quotedLiteral? s <|> numeralLiteral? s <|> wordLiteral? s

def attributeValue (raw : List Char) : Value × Option String :=
  match literal? raw with
  | some (value,[]) =>
    if raw.head?.any fun c => c == '\'' || c == '"' then (value,none) else (value,some (String.ofList raw))
  | _ => (.string (String.ofList raw),none)

def isSpace (c : Char) : Bool := c == ' ' || c == '\t' || c == '\r' || c == '\n'
def skip (s : List Char) : List Char := s.dropWhile isSpace

def isKeyChar (c : Char) : Bool := Unicode.isAlphanumeric c || c == '_' || c == '-'

def attributeOperand? : List Char → Option (Operand × List Char)
  | '@' :: '.' :: rest =>
    match rest.span isKeyChar with
    | ([],_) => none
    | (key,rest) => some (.attribute (String.ofList key),rest)
  | _ => none

def operand? (s : List Char) : Option (Operand × List Char) :=
  attributeOperand? s <|> (literal? s).map fun (value,rest) => (.literal value,rest)

def comparison? : List Char → Option (Comparison × List Char)
  | '>' :: '=' :: rest => some (.atLeast,rest)
  | '<' :: '=' :: rest => some (.atMost,rest)
  | '=' :: '=' :: rest => some (.equal,rest)
  | '!' :: '=' :: rest => some (.notEqual,rest)
  | '>' :: rest => some (.greater,rest)
  | '<' :: rest => some (.less,rest)
  | _ => none

def rightSide? (s : List Char) : Option (Comparison × Operand × List Char) := do
  let (op,rest) ← comparison? (skip s)
  let (right,rest) ← operand? (skip rest)
  pure (op,right,skip rest)

abbrev Read (α : Type) := Except FilterFault (α × List Char)

def comparison (s : List Char) : Read Predicate :=
  match operand? (skip s) with
  | none => .error (.operand (String.ofList (skip s)))
  | some (left,rest) =>
    let rest := skip rest
    match rightSide? rest with
    | some (op,right,rest) => .ok (.compare left op right,rest)
    | none => .ok (.truthy left,rest)

def parenthesis (c : Char) (s : List Char) : Except FilterFault (List Char) :=
  match skip s with
  | d :: rest => if c = d then .ok (skip rest) else .error (.parenthesis (String.ofList (d :: rest)))
  | [] => .error (.parenthesis "")

def connective? (word : String) (s : List Char) : Option (List Char) := word? word (skip s)

-- A group that cannot be read to its end is reported as a missing operand. A
-- connective without a readable right side is left over.
mutual
def term : Nat → List Char → Read Predicate
  | 0,s => .error (.operand (String.ofList s))
  | fuel + 1,s =>
    match group fuel s with
    | .ok found => .ok found
    | .error _ => comparison s

def group : Nat → List Char → Read Predicate
  | 0,s => .error (.parenthesis (String.ofList s))
  | fuel + 1,s =>
    match parenthesis '(' s with
    | .error fault => .error fault
    | .ok rest =>
      match disjunction fuel rest with
      | .error fault => .error fault
      | .ok (p,rest) =>
        match parenthesis ')' rest with
        | .error fault => .error fault
        | .ok rest => .ok (p,rest)

def conjunction : Nat → List Char → Read Predicate
  | 0,s => .error (.operand (String.ofList s))
  | fuel + 1,s =>
    match term fuel s with
    | .error fault => .error fault
    | .ok (p,rest) => .ok (moreAnd fuel p rest)

def moreAnd : Nat → Predicate → List Char → Predicate × List Char
  | 0,p,s => (p,s)
  | fuel + 1,p,s =>
    match connective? "and" s with
    | none => (p,s)
    | some rest =>
      match term fuel (skip rest) with
      | .error _ => (p,s)
      | .ok (q,rest) => moreAnd fuel (.and p q) rest

def disjunction : Nat → List Char → Read Predicate
  | 0,s => .error (.operand (String.ofList s))
  | fuel + 1,s =>
    match conjunction fuel s with
    | .error fault => .error fault
    | .ok (p,rest) => .ok (moreOr fuel p rest)

def moreOr : Nat → Predicate → List Char → Predicate × List Char
  | 0,p,s => (p,s)
  | fuel + 1,p,s =>
    match connective? "or" s with
    | none => (p,s)
    | some rest =>
      match conjunction fuel (skip rest) with
      | .error _ => (p,s)
      | .ok (q,rest) => moreOr fuel (.or p q) rest
end

-- No step down leaves more than five calls for a character, so this fuel suffices.
def predicate (s : List Char) : Read Predicate := group (5 * s.length + 5) s

def ofFilter (filter : List Char) : Except FilterFault Segment :=
  let body := trim filter
  match body with
  | '?' :: rest =>
    match predicate rest with
    | .ok (p,[]) => .ok (.predicate p)
    | .ok (_,rest) => .error (.unexpected (String.ofList rest))
    | .error fault => .error fault
  | _ =>
    match body.span (· != '=') with
    | (key,_ :: raw) =>
      let key := trim key
      if key.isEmpty then .error .missingName
      else
        let (value,bare) := attributeValue (trim raw)
        .ok (.equals (String.ofList key) value bare)
    | (key,[]) => if key.isEmpty then .error .empty else .ok (.present (String.ofList key))

end SharedTree.Path
