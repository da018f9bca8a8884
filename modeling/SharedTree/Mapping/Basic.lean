import SharedTree.Mapping.Key
import SharedTree.Node.Outline
import SharedTree.Tree.Basic

namespace SharedTree

-- An entry for each node under its key, which names the key of the parent. Entries stand in
-- preorder when written and in any order when read.
structure Entry where
  parent : Option String
  attributes : Attributes

abbrev Mapping := Table Entry

def Entry.same (a b : Entry) : Bool := a.parent == b.parent && Attributes.same a.attributes b.attributes

namespace Mapping

def same (a b : Mapping) : Bool := Table.agrees Entry.same a b

-- Children are numbered by how many earlier siblings have their name.
mutual
def entriesOf (key : String) (parent : Option String) : Node → List (String × Entry)
  | .mk _ _ attributes children => (key,⟨parent,attributes⟩) :: entriesBelow key [] children

def entriesBelow (parent : String) (earlier : List String) : List Node → List (String × Entry)
  | [] => []
  | child :: rest =>
    let component := Key.component child.name.toList (earlier.count child.name)
    let key := parent ++ "." ++ String.ofList component
    entriesOf key (some parent) child ++ entriesBelow parent (child.name :: earlier) rest
end

def ofNode (root : Node) : Mapping :=
  .ofList (entriesOf (String.ofList (Key.escape root.name.toList)) none root)

def ofTree (tree : Tree) : Mapping := ofNode tree.root

def rootFrom (mapping : Mapping) (root : Option String) : List (String × Entry) → Except TreeError String
  | [] => match root with
    | some key => .ok key
    | none => .error .missingRoot
  | (key,entry) :: rest =>
    match entry.parent with
    | none =>
      match root with
      | some first => .error (.multipleRoots first key)
      | none => rootFrom mapping (some key) rest
    | some parent =>
      if parent = key then .error (.cycle key)
      else if mapping.contains parent then rootFrom mapping root rest
      else .error (.unknownParent key parent)

def rootKey (mapping : Mapping) : Except TreeError String := rootFrom mapping none mapping.toList

def childKeys (mapping : Mapping) (parent : String) : List String :=
  (mapping.toList.filter (·.2.parent == some parent)).map (·.1)

structure Sibling where
  key : String
  name : String
  index : Nat
  deriving DecidableEq, Repr

def siblings (parent : String) : List String → Except TreeError (List Sibling)
  | [] => .ok []
  | key :: rest =>
    match Key.below? parent key with
    | none => .error (.invalidKey key (.foreign parent))
    | some component =>
      match Key.read component with
      | .error fault => .error (.invalidKey key fault)
      | .ok (name,index) =>
        match siblings parent rest with
        | .error error => .error error
        | .ok others => .ok (⟨key,String.ofList name,index⟩ :: others)

def numbered (siblings : List Sibling) (name : String) : List Sibling :=
  (siblings.filter (·.name == name)).mergeSort fun a b => a.index ≤ b.index

def firstGap? (group : List Sibling) : Option Sibling :=
  (group.zipIdx.find? fun place => place.1.index != place.2).map (·.1)

def gapError? (siblings : List Sibling) : Option TreeError :=
  ((siblings.map (·.name)).eraseDups.filterMap fun name =>
    (firstGap? (numbered siblings name)).map fun sibling => TreeError.invalidKey sibling.key (.gap name)).head?

def placed (siblings : List Sibling) (earlier : List String) : List Sibling → List Sibling
  | [] => []
  | slot :: rest =>
    let here := (numbered siblings slot.name)[earlier.count slot.name]?
    here.toList ++ placed siblings (slot.name :: earlier) rest

def ordered (parent : String) (keys : List String) : Except TreeError (List Sibling) :=
  match siblings parent keys with
  | .error error => .error error
  | .ok found =>
    match gapError? found with
    | some error => .error error
    | none => .ok (placed found [] found)

-- No branch from the root is longer than the mapping, so its size is fuel enough.
mutual
def build (mapping : Mapping) : Nat → String → String → Except TreeError Outline
  | 0,key,_ => .error (.cycle key)
  | fuel + 1,key,name =>
    match ordered key (mapping.childKeys key) with
    | .error error => .error error
    | .ok children =>
      match buildAll mapping fuel children with
      | .error error => .error error
      | .ok built => .ok (.mk name ((mapping.get? key).map (·.attributes) |>.getD .empty) built)

def buildAll (mapping : Mapping) : Nat → List Sibling → Except TreeError (List Outline)
  | _,[] => .ok []
  | fuel,child :: rest =>
    match build mapping fuel child.key child.name with
    | .error error => .error error
    | .ok first =>
      match buildAll mapping fuel rest with
      | .error error => .error error
      | .ok others => .ok (first :: others)
end

def reaches (mapping : Mapping) (root : String) : Nat → String → Bool
  | 0,_ => false
  | fuel + 1,key =>
    key == root ||
      match (mapping.get? key).bind (·.parent) with
      | some parent => reaches mapping root fuel parent
      | none => false

def strayKey (mapping : Mapping) (root : String) : String :=
  (mapping.names.find? fun key => !reaches mapping root (mapping.size + 1) key).getD ""

def toOutline (mapping : Mapping) : Except TreeError Outline :=
  match mapping.rootKey with
  | .error error => .error error
  | .ok root =>
    match Key.read root.toList with
    | .error fault => .error (.invalidKey root fault)
    | .ok (name,index) =>
      if index ≠ 0 then .error (.invalidKey root .rootSuffix)
      else
        match build mapping mapping.size root (String.ofList name) with
        | .error error => .error error
        | .ok outline =>
          if outline.size ≠ mapping.size then .error (.cycle (mapping.strayKey root)) else .ok outline

def toTree (mapping : Mapping) : Fresh (Except TreeError Tree) :=
  match mapping.toOutline with
  | .error error => pure (.error error)
  | .ok outline => return Tree.ofRoot (← outline.make)

end Mapping
end SharedTree
