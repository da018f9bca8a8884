import SharedTree.Mapping.Basic
import SharedTree.Json.Writer
import SharedTree.Json.Reader

namespace SharedTree.Mapping

def attributesOfJson? (room : Nat) : Json → Option Attributes
  | .object fields => (Value.fieldsOfJson? room fields).map Table.ofList
  | _ => none

def parentOfJson? : Json → Option (Option String)
  | .null => some none
  | .string codes => (Json.text? codes).map some
  | _ => none

-- A known field may be given once; what an unknown field holds is not looked at.
def entryFrom (room : Nat) (parent : Option (Option String)) (attributes : Option Attributes) :
    List (List Nat × Json) → Option Entry
  | [] => some ⟨parent.getD none,attributes.getD .empty⟩
  | (name,json) :: rest => do
    let name ← Json.text? name
    if name = "parent" then
      if parent.isSome then none else entryFrom room (some (← parentOfJson? json)) attributes rest
    else if name = "attrs" then
      if attributes.isSome then none else entryFrom room parent (some (← attributesOfJson? room json)) rest
    else entryFrom room parent attributes rest

def entryOfJson? (room : Nat) : Json → Option Entry
  | .object fields => entryFrom room none none fields
  | .array [] => some ⟨none,.empty⟩
  | .array [parent] => do pure ⟨← parentOfJson? parent,.empty⟩
  | .array [parent,attributes] => do pure ⟨← parentOfJson? parent,← attributesOfJson? room attributes⟩
  | _ => none

-- An entry is two levels down and its attributes three.
def ofJson? : Json → Option Mapping
  | .object fields => do
    let entries ← fields.mapM fun field => do
      pure (← Json.text? field.1,← entryOfJson? (Json.room - 3) field.2)
    pure (Table.ofList entries)
  | _ => none

def read? (text : String) : Option Mapping := (Json.read? text).bind ofJson?

def attributesText (attributes : Attributes) : String :=
  "\x7b" ++ Value.listed (Value.jsonFields attributes.toList) ++ "\x7d"

def entryText (entry : Entry) : String :=
  let parent := match entry.parent with
    | some key => "\"parent\":" ++ Text.jsonQuoted key ++ ","
    | none => ""
  "\x7b" ++ parent ++ "\"attrs\":" ++ attributesText entry.attributes ++ "\x7d"

def text (mapping : Mapping) : String :=
  "\x7b" ++ Value.listed (mapping.toList.map fun (key,entry) => Text.jsonQuoted key ++ ":" ++ entryText entry) ++ "\x7d"

def entryValue (entry : Entry) : Value :=
  let attributes := ("attrs",Value.ofFields entry.attributes.toList)
  match entry.parent with
  | some key => .ofFields [("parent",.string key),attributes]
  | none => .ofFields [attributes]

def value (mapping : Mapping) : Value :=
  .ofFields (mapping.toList.map fun (key,entry) => (key,entryValue entry))

def attributesOfValue? : Value → Option Attributes
  | .object fields => some (Table.ofList fields)
  | _ => none

def parentOfValue? : Value → Option (Option String)
  | .null => some none
  | .string key => some (some key)
  | _ => none

def entryOfValue? : Value → Option Entry
  | .object fields => do
    let parent ← ((fields.lookup "parent").map parentOfValue?).getD (some none)
    let attributes ← ((fields.lookup "attrs").map attributesOfValue?).getD (some .empty)
    pure ⟨parent,attributes⟩
  | .array [] => some ⟨none,.empty⟩
  | .array [parent] => do pure ⟨← parentOfValue? parent,.empty⟩
  | .array [parent,attributes] => do pure ⟨← parentOfValue? parent,← attributesOfValue? attributes⟩
  | _ => none

def ofValue? : Value → Option Mapping
  | .object fields => (fields.mapM fun field => (entryOfValue? field.2).map (field.1,·)).map Table.ofList
  | _ => none

end SharedTree.Mapping
