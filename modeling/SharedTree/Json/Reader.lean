import SharedTree.Json.Basic
import SharedTree.Number.Hexadecimal

namespace SharedTree.Json

def isSpace (c : Char) : Bool := c == ' ' || c == '\n' || c == '\t' || c == '\r'

def skip (s : List Char) : List Char := s.dropWhile isSpace

def digits (s : List Char) : List Char × List Char := s.span Decimal.isDigit

def whole? (s : List Char) : Option (List Char × List Char) :=
  match digits s with
  | ([],_) => none
  | ('0' :: _ :: _,_) => none
  | found => some found

def fraction? : List Char → Option (Option (List Char) × List Char)
  | '.' :: s =>
    match digits s with
    | ([],_) => none
    | (found,rest) => some (some found,rest)
  | s => some (none,s)

def exponent? : List Char → Option (Option (Bool × List Char) × List Char)
  | c :: s =>
    if c = 'e' ∨ c = 'E' then
      let (below,s) := match s with
        | '-' :: s => (true,s)
        | '+' :: s => (false,s)
        | s => (false,s)
      match digits s with
      | ([],_) => none
      | (found,rest) => some (some (below,found),rest)
    else some (none,c :: s)
  | [] => some (none,[])

def numeral? (s : List Char) : Option (Numeral × List Char) := do
  let (negative,s) := match s with
    | '-' :: s => (true,s)
    | s => (false,s)
  let (whole,s) ← whole? s
  let (fraction,s) ← fraction? s
  let (exponent,s) ← exponent? s
  pure (⟨negative,whole,fraction,exponent⟩,s)

def escaped? : Char → Option Nat
  | '"' => some 0x22
  | '\\' => some 0x5C
  | '/' => some 0x2F
  | 'b' => some 0x08
  | 'f' => some 0x0C
  | 'n' => some 0x0A
  | 'r' => some 0x0D
  | 't' => some 0x09
  | _ => none

def codes? : List Char → Option (List Nat × List Char)
  | '"' :: rest => some ([],rest)
  | '\\' :: 'u' :: a :: b :: c :: d :: rest => do
    let code ← Hexadecimal.number? [a,b,c,d]
    let (codes,rest) ← codes? rest
    pure (code :: codes,rest)
  | '\\' :: c :: rest => do
    let code ← escaped? c
    let (codes,rest) ← codes? rest
    pure (code :: codes,rest)
  | c :: rest =>
    if c.toNat < 0x20 ∨ c = '\\' then none
    else do
      let (codes,rest) ← codes? rest
      pure (c.toNat :: codes,rest)
  | [] => none

def word? (word : String) (s : List Char) : Option (List Char) :=
  let word := word.toList
  if word.isPrefixOf s then some (s.drop word.length) else none

mutual
def value? : Nat → List Char → Option (Json × List Char)
  | 0,_ => none
  | fuel + 1,s =>
    match skip s with
    | '"' :: rest => (codes? rest).map fun (codes,rest) => (.string codes,rest)
    | '[' :: rest =>
      match skip rest with
      | ']' :: rest => some (.array [],rest)
      | rest => (items? fuel rest).map fun (items,rest) => (.array items,rest)
    | '\x7b' :: rest =>
      match skip rest with
      | '\x7d' :: rest => some (.object [],rest)
      | rest => (fields? fuel rest).map fun (fields,rest) => (.object fields,rest)
    | 'n' :: rest => (word? "ull" rest).map fun rest => (.null,rest)
    | 't' :: rest => (word? "rue" rest).map fun rest => (.bool true,rest)
    | 'f' :: rest => (word? "alse" rest).map fun rest => (.bool false,rest)
    | rest => (numeral? rest).map fun (n,rest) => (.number n,rest)

def items? : Nat → List Char → Option (List Json × List Char)
  | 0,_ => none
  | fuel + 1,s => do
    let (item,rest) ← value? fuel s
    match skip rest with
    | ',' :: rest =>
      let (items,rest) ← items? fuel rest
      pure (item :: items,rest)
    | ']' :: rest => pure ([item],rest)
    | _ => none

def fields? : Nat → List Char → Option (List (List Nat × Json) × List Char)
  | 0,_ => none
  | fuel + 1,s =>
    match skip s with
    | '"' :: rest => do
      let (name,rest) ← codes? rest
      match skip rest with
      | ':' :: rest =>
        let (item,rest) ← value? fuel rest
        match skip rest with
        | ',' :: rest =>
          let (fields,rest) ← fields? fuel rest
          pure ((name,item) :: fields,rest)
        | '\x7d' :: rest => pure ([(name,item)],rest)
        | _ => none
      | _ => none
    | _ => none
end

-- Every step down takes a character, so twice the length is fuel enough.
def read? (text : String) : Option Json :=
  let s := text.toList
  match value? (2 * s.length + 2) s with
  | some (json,rest) => if (skip rest).isEmpty then some json else none
  | none => none

end SharedTree.Json

namespace SharedTree.Value

def read? (text : String) : Option Value := (Json.read? text).bind (ofJson? Json.room)

end SharedTree.Value
