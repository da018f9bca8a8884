import SharedTree.Value.Basic
import SharedTree.Number.Decimal

namespace SharedTree

structure Numeral where
  negative : Bool
  whole : List Char
  fraction : Option (List Char)
  exponent : Option (Bool × List Char)
  deriving DecidableEq, Repr

-- JSON text as written: fields in their order with repetitions, numerals with their digits. Texts
-- are code points; an escape may denote half of a surrogate pair.
inductive Json where
  | null
  | bool (b : Bool)
  | number (n : Numeral)
  | string (codes : List Nat)
  | array (items : List Json)
  | object (fields : List (List Nat × Json))
  deriving Repr, Inhabited

namespace Numeral

def wordLimit : Nat := twoTo 64
def exponentLimit : Nat := twoTo 31

-- Takes digits while the number still fits a word; the rest is only counted.
def gather (start : Nat) : List Char → Nat × Nat
  | [] => (start,0)
  | d :: rest =>
    let next := 10 * start + Decimal.digitValue d
    if next < wordLimit then
      let (total,left) := gather next rest
      (total,left)
    else (start,rest.length + 1)

-- Integers within the words stay integers; a negative zero does not.
def number? (n : Numeral) : Option Number :=
  let (whole,beyond) := gather 0 n.whole
  match n.fraction,n.exponent with
  | none,none =>
    if beyond = 0 ∧ (!n.negative ∨ (0 < whole ∧ whole ≤ twoTo 63)) then
      some (.int (if n.negative then -(whole : Int) else whole))
    else ((⟨n.negative,whole,beyond⟩ : Decimal).scaled?).map .float
  | fraction,exponent =>
    let digits := fraction.getD []
    let (significand,skipped) := gather whole digits
    let start : Int := (beyond : Int) - ((digits.length : Int) - skipped)
    match exponent with
    | none => ((⟨n.negative,significand,start⟩ : Decimal).scaled?).map .float
    | some (below,digits) =>
      let power := Decimal.value 0 digits
      if power < exponentLimit then
        let exponent : Int := if below then start - power else start + power
        ((⟨n.negative,significand,exponent⟩ : Decimal).scaled?).map .float
      else if significand ≠ 0 ∧ !below then none
      else some (.float (.zero n.negative))

end Numeral

namespace Json

def isHigh (code : Nat) : Bool := 0xD800 ≤ code && code < 0xDC00
def isLow (code : Nat) : Bool := 0xDC00 ≤ code && code < 0xE000

def chars? : List Nat → Option (List Char)
  | [] => some []
  | code :: rest =>
    if isLow code then none
    else if isHigh code then
      match rest with
      | low :: rest =>
        if isLow low then
          (chars? rest).map (Char.ofNat (0x10000 + (code - 0xD800) * 0x400 + (low - 0xDC00)) :: ·)
        else none
      | [] => none
    else (chars? rest).map (Char.ofNat code :: ·)

def text? (codes : List Nat) : Option String := (chars? codes).map String.ofList

-- How many arrays and objects may stand inside one another.
def room : Nat := 127

end Json

namespace Value

mutual
def ofJson? : Nat → Json → Option Value
  | _,.null => some .null
  | _,.bool b => some (.bool b)
  | _,.number n => n.number?.map .number
  | _,.string codes => (Json.text? codes).map .string
  | 0,.array _ => none
  | 0,.object _ => none
  | room + 1,.array items => (itemsOfJson? room items).map .array
  | room + 1,.object fields => (fieldsOfJson? room fields).map ofFields

def itemsOfJson? : Nat → List Json → Option (List Value)
  | _,[] => some []
  | room,item :: rest => do
    let value ← ofJson? room item
    let values ← itemsOfJson? room rest
    pure (value :: values)

def fieldsOfJson? : Nat → List (List Nat × Json) → Option (List (String × Value))
  | _,[] => some []
  | room,(name,item) :: rest => do
    let name ← Json.text? name
    let value ← ofJson? room item
    let values ← fieldsOfJson? room rest
    pure ((name,value) :: values)
end

end Value
end SharedTree
