import SharedTree.Value.Table
import SharedTree.Number.Binary64

namespace SharedTree

inductive Number where
  | int (value : Int)
  | float (value : Binary64)
  deriving DecidableEq, Repr, Inhabited

namespace Number

def same : Number → Number → Bool
  | .int a,.int b => a == b
  | .float a,.float b => a.same b
  | _,_ => false

def toBinary : Number → Binary64
  | .int n => .ofInt n
  | .float x => x

def isZero (n : Number) : Bool := n.toBinary.isZero

end Number

-- Two equalities are kept apart: `same` is strict about integer and float and compares floats
-- numerically, `agrees` also lets an integer equal a float of the same binary value.
inductive Value where
  | null
  | bool (b : Bool)
  | number (n : Number)
  | string (s : String)
  | array (items : List Value)
  | object (fields : List (String × Value))
  deriving Repr, Inhabited

namespace Value

def int (n : Int) : Value := .number (.int n)
def float (x : Binary64) : Value := .number (.float x)

mutual
def same : Value → Value → Bool
  | .null,.null => true
  | .bool a,.bool b => a == b
  | .number a,.number b => a.same b
  | .string a,.string b => a == b
  | .array a,.array b => sameItems a b
  | .object a,.object b => sameFields a b
  | _,_ => false

def sameItems : List Value → List Value → Bool
  | [],[] => true
  | a :: as,b :: bs => a.same b && sameItems as bs
  | _,_ => false

def sameFields : List (String × Value) → List (String × Value) → Bool
  | [],[] => true
  | (k,a) :: as,(l,b) :: bs => k == l && a.same b && sameFields as bs
  | _,_ => false
end

def insertField (name : String) (value : Value) : List (String × Value) → List (String × Value)
  | [] => [(name,value)]
  | field :: rest =>
    if name < field.1 then (name,value) :: field :: rest
    else if name = field.1 then (name,value) :: rest
    else field :: insertField name value rest

-- A later field of the same name replaces an earlier one.
def ofFields (fields : List (String × Value)) : Value :=
  .object (fields.foldl (fun sorted field => insertField field.1 field.2 sorted) [])

def agrees : Value → Value → Bool
  | .number a,.number b => a.toBinary.same b.toBinary
  | a,b => a.same b

def order? : Value → Value → Option Ordering
  | .number a,.number b => some (a.toBinary.compare b.toBinary)
  | .string a,.string b => some (compare a b)
  | .bool a,.bool b => some (compare a b)
  | _,_ => none

def truthy : Value → Bool
  | .null => false
  | .bool b => b
  | .number n => !n.isZero
  | .string s => !s.isEmpty
  | .array items => !items.isEmpty
  | .object fields => !fields.isEmpty

def string? : Value → Option String
  | .string s => some s
  | _ => none

end Value

abbrev Attributes := Table Value

namespace Attributes

def same (left right : Attributes) : Bool := Table.agrees Value.same left right

end Attributes
end SharedTree
