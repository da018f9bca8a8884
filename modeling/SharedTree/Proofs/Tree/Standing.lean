import SharedTree.Proofs.Tree.Survey

namespace SharedTree
namespace Node

def follow? : Node → List Nat → Option Node
  | n,[] => some n
  | n,index :: path => (n.child? index).bind (·.follow? path)

end Node

namespace Position

theorem follow?_eq (p : Position) (path : List Nat) : p.node.follow? path = (p.at? path).map node := by
  induction path generalizing p with
  | nil => rfl
  | cons index path ih =>
      rw [Node.follow?,at?]
      cases p.node.child? index with
      | none => rfl
      | some child => exact ih (p.under child)

end Position

namespace Tree

variable {tree : Tree} {path : List Nat} {p : Position} {next : Nat} {held : List Node}

theorem follow?_eq (tree : Tree) (path : List Nat) : tree.root.follow? path = (tree.at? path).map Position.node :=
  tree.top.follow?_eq path

theorem ancestors_at? (found : tree.at? path = some p) :
    p.ancestors.map some = (List.range path.length).reverse.map fun length => tree.at? (path.take length) := by
  induction path using List.reverseRecOn generalizing p with
  | nil =>
      cases Option.some.inj found
      rfl
  | append_singleton path index ih =>
      obtain ⟨parent,child,above,_,rfl⟩ := Position.at?_concat found
      have nearest : (parent.under child).ancestors = parent :: parent.ancestors := rfl
      have here : tree.at? path = some parent := above
      rw [nearest,List.map_cons,ih above,List.length_append,List.length_singleton,List.range_succ,List.reverse_append,
        List.reverse_singleton,List.singleton_append,List.map_cons,List.take_left,here]
      congr 1
      refine List.map_congr_left fun length member => ?_
      have shorter : length < path.length := by simpa using member
      rw [List.take_append_of_le_length (Nat.le_of_lt shorter)]

theorem siblingIndex?_eq (distinct : tree.root.Distinct) (found : tree.at? path = some p) :
    p.siblingIndex? = path.getLast? := by
  induction path using List.reverseRecOn with
  | nil =>
      cases Option.some.inj found
      rfl
  | append_singleton path index _ =>
      obtain ⟨parent,child,above,here,rfl⟩ := Position.at?_concat found
      rw [List.getLast?_concat]
      exact siblingIndex?_under (Node.distinct_subtree distinct (node_mem above)) here

theorem ancestors_nodes (p : Position) : p.ancestors.map Position.node = p.above := by
  obtain ⟨node,above⟩ := p
  show (Position.upward above).map Position.node = above
  induction above with
  | nil => rfl
  | cons parent above ih => rw [Position.upward,List.map_cons,ih]

def nodeAt? (tree : Tree) (path : List Nat) : Option Position := (tree.root.follow? path).bind tree.locate?

theorem nodeAt?_eq (distinct : tree.root.Distinct) (path : List Nat) : tree.nodeAt? path = tree.at? path := by
  rw [nodeAt?,follow?_eq]
  cases found : tree.at? path with
  | none => rfl
  | some p => exact locate?_place distinct found

theorem parent?_none (p : Position) : p.parent? = none ↔ p.isRoot = true := by
  obtain ⟨node,above⟩ := p
  cases above with
  | nil => exact iff_of_true rfl rfl
  | cons parent above =>
      constructor
      · intro rootless
        cases rootless
      · intro rooted
        cases rooted

-- What is known of the place at an index path, and what the index says of the node there.
structure Stands (tree : Tree) (path : List Nat) (p : Position) : Prop where
  reached : tree.root.follow? path = some p.node
  located : tree.locate? p.node = some p
  indexPath : p.indexPath = path
  depth : p.depth = path.length
  parent : p.parent? = if path = [] then none else tree.nodeAt? path.dropLast
  top : p.parent? = none ↔ path = []
  parentOf : tree.parentOf? p.node = p.parent?.map Position.node
  sibling : p.siblingIndex? = path.getLast?
  ancestors : p.ancestors.map some = (List.range path.length).reverse.map fun length => tree.nodeAt? (path.take length)
  climbed : tree.climb tree.size p.node = p.ancestors.map Position.node

theorem stands (distinct : tree.root.Distinct) (found : tree.at? path = some p) : Stands tree path p where
  reached := by rw [follow?_eq,found]; rfl
  located := locate?_place distinct found
  indexPath := indexPath_eq distinct found
  depth := depth_eq found
  parent := by rw [nodeAt?_eq distinct]; exact parent?_eq found
  top := by rw [← isRoot_iff found,parent?_none]
  parentOf := parentOf?_eq distinct found
  sibling := siblingIndex?_eq distinct found
  ancestors := by simp only [nodeAt?_eq distinct]; exact ancestors_at? found
  climbed := by
    have deep : path.length < tree.size := Position.path_shorter found
    rw [climb_eq distinct found (Nat.le_of_lt deep),ancestors_nodes]

theorem followed_iff {node : Node} : (∃ path,tree.root.follow? path = some node) ↔ node ∈ tree.root.subtree := by
  simp only [follow?_eq,Option.map_eq_some_iff]
  exact mem_subtree_iff.symm

theorem standing_exact {root : Node} (made : ofRoot root = .ok tree) (memory : Node.Memory next held) (own : root ∈ held) :
    (∃ parents,(Survey.start root).run = .ok parents ∧ parents.length + 1 = tree.size ∧
      ∀ node,tree.parentOf? node = parents.lookup node.serial) ∧
    (tree.size = root.size ∧ root.paths.length = tree.size ∧ root.paths.Nodup) ∧
    (∀ path,(path ∈ root.paths ↔ (root.follow? path).isSome = true) ∧ (path ∉ root.paths → tree.nodeAt? path = none)) ∧
    (∀ path ∈ root.paths,∃ p,tree.nodeAt? path = some p ∧ Stands tree path p) ∧
    ∀ node ∈ held,(tree.contains node = true ↔ ∃ path,root.follow? path = some node) ∧
      ((tree.locate? node).isSome = true ↔ ∃ path,root.follow? path = some node) ∧
      ∀ p,tree.locate? node = some p ↔ p.node = node ∧ ∃ path,tree.nodeAt? path = some p := by
  cases ofRoot_root made
  have distinct := tree.distinct memory own
  refine ⟨tree.surveyed,⟨rfl,Node.paths_length _,Node.paths_nodup _⟩,?_,?_,?_⟩
  · intro path
    have valid : path ∈ tree.root.paths ↔ (tree.at? path).isSome = true := Position.mem_paths (p := tree.top)
    rw [valid,follow?_eq,nodeAt?_eq distinct,Option.isSome_map]
    exact ⟨.rfl,Option.not_isSome_iff_eq_none.mp⟩
  · intro path valid
    obtain ⟨p,found⟩ := mem_paths.mp valid
    exact ⟨p,(nodeAt?_eq distinct path).trans found,stands distinct found⟩
  · intro node known
    have contained := contains_iff memory own known
    simp only [followed_iff,nodeAt?_eq distinct]
    refine ⟨contained,?_,fun _ => locate?_iff memory own known⟩
    rw [locate?_isSome,contained]

theorem standing_family : ∃ p,family.nodeAt? [0,0] = some p ∧ p.name = "y" ∧ Stands family [0,0] p := by
  have memory := family_memory (List.forall_mem_singleton.mpr family.root.mem_subtree_self)
  have exact := standing_exact (ofRoot_own family) memory (List.mem_singleton.mpr rfl)
  obtain ⟨p,found,stand⟩ := exact.2.2.2.1 [0,0] (by decide)
  have named : (family.nodeAt? [0,0]).map Position.name = some "y" := rfl
  rw [found] at named
  exact ⟨p,found,Option.some.inj named,stand⟩

end Tree
end SharedTree
