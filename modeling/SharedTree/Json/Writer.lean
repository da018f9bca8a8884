import SharedTree.Value.Basic
import SharedTree.Number.Shortest
import SharedTree.Text.Quoted

namespace SharedTree

def Number.text : Number → String
  | .int n => toString n
  | .float x => x.text

namespace Value

def listed (parts : List String) : String := String.intercalate "," parts

mutual
def json : Value → String
  | .null => "null"
  | .bool b => if b then "true" else "false"
  | .number n => n.text
  | .string s => Text.jsonQuoted s
  | .array items => "[" ++ listed (jsonItems items) ++ "]"
  | .object fields => "\x7b" ++ listed (jsonFields fields) ++ "\x7d"

def jsonItems : List Value → List String
  | [] => []
  | item :: rest => item.json :: jsonItems rest

def jsonFields : List (String × Value) → List String
  | [] => []
  | (name,value) :: rest => (Text.jsonQuoted name ++ ":" ++ value.json) :: jsonFields rest
end

mutual
def shown : Value → String
  | .null => "Null"
  | .bool b => "Bool(" ++ (if b then "true" else "false") ++ ")"
  | .number n => "Number(" ++ n.text ++ ")"
  | .string s => "String(" ++ Text.quoted s ++ ")"
  | .array items => "Array [" ++ String.intercalate ", " (shownItems items) ++ "]"
  | .object fields => "Object \x7b" ++ String.intercalate ", " (shownFields fields) ++ "\x7d"

def shownItems : List Value → List String
  | [] => []
  | item :: rest => item.shown :: shownItems rest

def shownFields : List (String × Value) → List String
  | [] => []
  | (name,value) :: rest => (Text.quoted name ++ ": " ++ value.shown) :: shownFields rest
end

end Value
end SharedTree
