import SharedTree.Proofs.Node.Outline
import SharedTree.Tree.Walk

namespace SharedTree
namespace Node

mutual
def paths : Node → List (List Nat)
  | .mk _ _ _ children => [] :: pathsFrom 0 children

def pathsFrom (index : Nat) : List Node → List (List Nat)
  | [] => []
  | child :: rest => child.paths.map (index :: ·) ++ pathsFrom (index + 1) rest
end

theorem paths_eq (n : Node) : n.paths = [] :: pathsFrom 0 n.children := by cases n; rfl

-- The nodes met on an index path, from the node itself on.
def along : Node → List Nat → List Node
  | n,[] => [n]
  | n,index :: path => n :: match n.child? index with
    | some child => child.along path
    | none => []

theorem along_child {n child : Node} (here : n.child? index = some child) (path : List Nat) :
    n.along (index :: path) = n :: child.along path := by
  rw [along,here]

theorem mem_pathsFrom {nodes : List Node} :
    path ∈ pathsFrom index nodes ↔
      ∃ offset child rest,path = (index + offset) :: rest ∧ nodes[offset]? = some child ∧ rest ∈ child.paths := by
  induction nodes generalizing index with
  | nil => simp [pathsFrom]
  | cons first nodes ih =>
      rw [pathsFrom,List.mem_append,List.mem_map,ih]
      constructor
      · intro either
        rcases either with ⟨rest,inside,rfl⟩ | ⟨offset,child,rest,rfl,here,inside⟩
        · exact ⟨0,first,rest,rfl,rfl,inside⟩
        · exact ⟨offset + 1,child,rest,by rw [Nat.add_assoc,Nat.add_comm 1],here,inside⟩
      · intro given
        obtain ⟨offset,child,rest,rfl,here,inside⟩ := given
        cases offset with
        | zero =>
            cases Option.some.inj here
            exact .inl ⟨rest,inside,rfl⟩
        | succ offset =>
            exact .inr ⟨offset,child,rest,by rw [Nat.add_assoc,Nat.add_comm 1],here,inside⟩

theorem pathsFrom_ordered {nodes : List Node}
    (ordered : ∀ child ∈ nodes,child.paths.Pairwise (List.Lex (· < ·))) :
    (pathsFrom index nodes).Pairwise (List.Lex (· < ·)) := by
  induction nodes generalizing index with
  | nil => exact .nil
  | cons first nodes ih =>
      rw [pathsFrom,List.pairwise_append]
      refine ⟨?_,ih fun child member => ordered child (.tail _ member),?_⟩
      · rw [List.pairwise_map]
        exact (ordered first (.head _)).imp .cons
      · intro path inside other later
        obtain ⟨rest,_,rfl⟩ := List.mem_map.mp inside
        obtain ⟨offset,child,left,rfl,_,_⟩ := mem_pathsFrom.mp later
        exact .rel (by omega)

theorem paths_ordered (n : Node) : n.paths.Pairwise (List.Lex (· < ·)) := by
  induction n using children_induction with
  | step n ih =>
      rw [paths_eq]
      refine .cons ?_ (pathsFrom_ordered ih)
      intro path inside
      obtain ⟨offset,child,rest,rfl,_,_⟩ := mem_pathsFrom.mp inside
      exact .nil

theorem paths_nodup (n : Node) : n.paths.Nodup := by
  refine n.paths_ordered.imp fun {path other} less same => ?_
  rw [same] at less
  exact List.lex_irrefl Nat.lt_irrefl other less

theorem pathsFrom_length {nodes : List Node} (each : ∀ child ∈ nodes,child.paths.length = child.size) (index : Nat) :
    (pathsFrom index nodes).length = sizeAll nodes := by
  induction nodes generalizing index with
  | nil => rfl
  | cons child nodes ih =>
      rw [pathsFrom,List.length_append,List.length_map,each child (.head _),sizeAll,
        ih fun other member => each other (.tail _ member)]

theorem paths_length (n : Node) : n.paths.length = n.size := by
  induction n using children_induction with
  | step n ih => rw [paths_eq,List.length_cons,pathsFrom_length ih,size_eq,Nat.add_comm]

end Node

namespace Position

theorem at?_child {p : Position} {child : Node} (here : p.node.child? index = some child) (path : List Nat) :
    p.at? (index :: path) = (p.under child).at? path := by
  rw [at?,here]
  rfl

theorem mem_paths {p : Position} {path : List Nat} : path ∈ p.node.paths ↔ (p.at? path).isSome = true := by
  induction path generalizing p with
  | nil => simp [Node.paths_eq,at?]
  | cons index path ih =>
      rw [Node.paths_eq,List.mem_cons,Node.mem_pathsFrom]
      constructor
      · intro either
        rcases either with same | ⟨offset,child,rest,same,here,inside⟩
        · cases same
        · rw [Nat.zero_add] at same
          obtain ⟨rfl,rfl⟩ := List.cons.inj same
          rw [at?_child here]
          exact ih.mp inside
      · intro found
        cases here : p.node.child? index with
        | none => simp [at?,here] at found
        | some child =>
            rw [at?_child here] at found
            exact .inr ⟨index,child,path,by rw [Nat.zero_add],here,ih.mpr found⟩

theorem chain_at? {p q : Position} {path : List Nat} (found : p.at? path = some q) :
    q.chain = p.above.reverse ++ p.node.along path := by
  induction path generalizing p with
  | nil =>
      cases Option.some.inj found
      simp [chain,Node.along]
  | cons index path ih =>
      cases here : p.node.child? index with
      | none => simp [at?,here] at found
      | some child =>
          rw [at?_child here] at found
          rw [ih found,Node.along_child here]
          simp [under]

end Position

theorem Tree.chain_eq {tree : Tree} {p : Position} {path : List Nat} (found : tree.at? path = some p) :
    p.chain = tree.root.along path := Position.chain_at? found

namespace Preorder

theorem toList_nil : (⟨[]⟩ : Preorder).toList = [] := by rw [toList]; rfl

theorem toList_cons (p : Position) (rest : List Position) :
    (⟨p :: rest⟩ : Preorder).toList = p :: (⟨p.children ++ rest⟩ : Preorder).toList := by
  rw [toList]
  rfl

theorem toList_append (first rest : List Position) :
    (⟨first ++ rest⟩ : Preorder).toList = (⟨first⟩ : Preorder).toList ++ (⟨rest⟩ : Preorder).toList := by
  induction measured : (⟨first⟩ : Preorder).weight using Nat.strongRecOn generalizing first with
  | ind size ih =>
      cases first with
      | nil => rw [toList_nil]; rfl
      | cons p first =>
          have lighter : (⟨p.children ++ first⟩ : Preorder).weight < (⟨p :: first⟩ : Preorder).weight :=
            next?_lighter rfl
          rw [measured] at lighter
          rw [List.cons_append,toList_cons,toList_cons,← List.append_assoc,ih _ lighter _ rfl,List.cons_append]

theorem toList_eq (pending : List Position) :
    (⟨pending⟩ : Preorder).toList = pending.flatMap Position.preorder := by
  induction pending with
  | nil => exact toList_nil
  | cons p pending ih => rw [← List.singleton_append,toList_append,ih]; rfl

end Preorder

namespace Position

theorem preorder_eq (p : Position) : p.preorder = p :: p.children.flatMap preorder := by
  rw [preorder,Preorder.start,Preorder.toList_cons,List.append_nil,Preorder.toList_eq]

theorem children_paths (p : Position) (nodes : List Node) (index : Nat)
    (here : ∀ offset,nodes[offset]? = p.node.child? (index + offset))
    (below : ∀ child ∈ nodes,(p.under child).preorder.map some = child.paths.map (p.under child).at?) :
    ((nodes.map p.under).flatMap preorder).map some = (Node.pathsFrom index nodes).map p.at? := by
  induction nodes generalizing index with
  | nil => rfl
  | cons first nodes ih =>
      have next : p.node.child? index = some first := (here 0).symm
      have later : ∀ offset,nodes[offset]? = p.node.child? (index + 1 + offset) := by
        intro offset
        rw [Nat.add_assoc,Nat.add_comm 1]
        exact here (offset + 1)
      rw [List.map_cons,List.flatMap_cons,List.map_append,Node.pathsFrom,List.map_append,List.map_map,
        ih (index + 1) later fun child member => below child (.tail _ member),below first (.head _)]
      congr 1
      exact List.map_congr_left fun path _ => (at?_child next path).symm

theorem preorder_paths (p : Position) : p.preorder.map some = p.node.paths.map p.at? := by
  obtain ⟨n,above⟩ := p
  induction n using Node.children_induction generalizing above with
  | step n ih =>
      rw [preorder_eq,Node.paths_eq,List.map_cons,List.map_cons]
      congr 1
      exact children_paths ⟨n,above⟩ n.children 0 (by simp [Node.child?]) fun child member => ih child member _

theorem mem_preorder {start p : Position} : p ∈ start.preorder ↔ ∃ path,start.at? path = some p := by
  have visited : p ∈ start.preorder ↔ some p ∈ start.node.paths.map start.at? := by
    rw [← preorder_paths]
    simp
  rw [visited,List.mem_map]
  constructor
  · intro given
    obtain ⟨path,_,found⟩ := given
    exact ⟨path,found⟩
  · intro given
    obtain ⟨path,found⟩ := given
    exact ⟨path,mem_paths.mpr (by rw [found]; rfl),found⟩

end Position
end SharedTree
