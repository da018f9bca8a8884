import Mathlib.Data.List.Induction
import SharedTree.Proofs.Tree.Paths

namespace SharedTree
namespace Position

theorem at?_append (p : Position) (path rest : List Nat) :
    p.at? (path ++ rest) = (p.at? path).bind (·.at? rest) := by
  induction path generalizing p with
  | nil => rfl
  | cons index path ih =>
      cases here : p.node.child? index with
      | none => simp [at?,here]
      | some child => rw [List.cons_append,at?_child here,at?_child here,ih]

theorem at?_concat {start p : Position} {path : List Nat} (found : start.at? (path ++ [index]) = some p) :
    ∃ parent child,start.at? path = some parent ∧ parent.node.child? index = some child ∧ p = parent.under child := by
  rw [at?_append] at found
  obtain ⟨parent,above,last⟩ := Option.bind_eq_some_iff.mp found
  cases here : parent.node.child? index with
  | none => simp [at?,here] at last
  | some child =>
      rw [at?_child here] at last
      exact ⟨parent,child,above,here,(Option.some.inj last).symm⟩

theorem at?_before {start p : Position} {before path : List Nat} (found : start.at? path = some p)
    (shorter : before <+: path) : ∃ q,start.at? before = some q := by
  obtain ⟨rest,rfl⟩ := shorter
  rw [at?_append] at found
  obtain ⟨q,here,_⟩ := Option.bind_eq_some_iff.mp found
  exact ⟨q,here⟩

theorem shorter_concat {before path : List Nat} :
    before <+: path ++ [index] ∧ before ≠ path ++ [index] ↔ before <+: path := by
  rw [List.prefix_concat_iff]
  constructor
  · intro given
    exact given.1.resolve_left given.2
  · intro inside
    refine ⟨.inr inside,?_⟩
    intro same
    have bound := inside.length_le
    rw [same,List.length_append,List.length_singleton] at bound
    omega

theorem mem_ancestors_below {start p a : Position} {path : List Nat} (found : start.at? path = some p) :
    a ∈ p.ancestors ↔ a ∈ start.ancestors ∨ ∃ before,(before <+: path ∧ before ≠ path) ∧ start.at? before = some a := by
  induction path using List.reverseRecOn generalizing p with
  | nil =>
      cases Option.some.inj found
      simp
  | append_singleton path index ih =>
      obtain ⟨parent,child,above,_,rfl⟩ := at?_concat found
      have nearest : a ∈ (parent.under child).ancestors ↔ a = parent ∨ a ∈ parent.ancestors := List.mem_cons
      rw [nearest,ih above]
      simp only [shorter_concat]
      constructor
      · intro either
        rcases either with rfl | outside | ⟨before,⟨inside,_⟩,found⟩
        · exact .inr ⟨path,List.prefix_rfl,above⟩
        · exact .inl outside
        · exact .inr ⟨before,inside,found⟩
      · intro either
        rcases either with outside | ⟨before,inside,found⟩
        · exact .inr (.inl outside)
        · by_cases whole : before = path
          · rw [whole,above] at found
            exact .inl (Option.some.inj found).symm
          · exact .inr (.inr ⟨before,⟨inside,whole⟩,found⟩)

theorem mem_descendants {p d : Position} : d ∈ p.descendants ↔ ∃ path,path ≠ [] ∧ p.at? path = some d := by
  have walked : p.descendants = p.children.flatMap preorder := Preorder.toList_eq p.children
  rw [walked,List.mem_flatMap]
  constructor
  · intro given
    obtain ⟨q,member,inside⟩ := given
    obtain ⟨child,among,rfl⟩ := List.mem_map.mp member
    obtain ⟨index,here⟩ := List.mem_iff_getElem?.mp among
    obtain ⟨path,found⟩ := mem_preorder.mp inside
    exact ⟨index :: path,by simp,(at?_child here path).trans found⟩
  · intro given
    obtain ⟨path,nonempty,found⟩ := given
    cases path with
    | nil => exact absurd rfl nonempty
    | cons index path =>
        cases here : p.node.child? index with
        | none => simp [at?,here] at found
        | some child =>
            rw [at?_child here] at found
            exact ⟨p.under child,List.mem_map_of_mem (List.mem_of_getElem? here),mem_preorder.mpr ⟨path,found⟩⟩

theorem isLeaf_iff {p : Position} : p.isLeaf = true ↔ ∀ path,path ≠ [] → p.at? path = none := by
  have childless : p.isLeaf = true ↔ p.node.children = [] := List.isEmpty_iff
  rw [childless]
  constructor
  · intro none path nonempty
    cases path with
    | nil => exact absurd rfl nonempty
    | cons index path => simp [at?,Node.child?,none]
  · intro empty
    cases found : p.node.children with
    | nil => rfl
    | cons child rest =>
        have here : p.node.child? 0 = some child := by simp [Node.child?,found]
        have nothing := empty [0] (by simp)
        rw [at?_child here] at nothing
        cases nothing

end Position

namespace Tree

variable {tree : Tree} {p a : Position} {path : List Nat}

theorem at?_append (tree : Tree) (path rest : List Nat) :
    tree.at? (path ++ rest) = (tree.at? path).bind (·.at? rest) := Position.at?_append tree.top path rest

theorem at?_below (found : tree.at? path = some p) (rest : List Nat) : tree.at? (path ++ rest) = p.at? rest := by
  rw [at?_append,found,Option.bind_some]

theorem mem_paths : path ∈ tree.root.paths ↔ ∃ p,tree.at? path = some p := by
  have visited : path ∈ tree.root.paths ↔ (tree.at? path).isSome = true := Position.mem_paths (p := tree.top)
  rw [visited,Option.isSome_iff_exists]

theorem at?_before (found : tree.at? path = some p) (shorter : before <+: path) : ∃ q,tree.at? before = some q :=
  Position.at?_before found shorter

theorem mem_ancestors (found : tree.at? path = some p) :
    a ∈ p.ancestors ↔ ∃ before,(before <+: path ∧ before ≠ path) ∧ tree.at? before = some a := by
  have above : a ∈ p.ancestors ↔ a ∈ tree.top.ancestors ∨
      ∃ before,(before <+: path ∧ before ≠ path) ∧ tree.at? before = some a := Position.mem_ancestors_below found
  have top : tree.top.ancestors = [] := rfl
  rw [top] at above
  exact above.trans ⟨fun either => either.resolve_left (by simp),.inr⟩

theorem mem_descendants (found : tree.at? path = some p) :
    a ∈ p.descendants ↔ ∃ beyond,(path <+: beyond ∧ beyond ≠ path) ∧ tree.at? beyond = some a := by
  rw [Position.mem_descendants]
  constructor
  · intro given
    obtain ⟨rest,nonempty,below⟩ := given
    refine ⟨path ++ rest,⟨List.prefix_append _ _,by simpa using nonempty⟩,?_⟩
    rw [at?_below found]
    exact below
  · intro given
    obtain ⟨_,⟨⟨rest,rfl⟩,longer⟩,below⟩ := given
    rw [at?_below found] at below
    exact ⟨rest,by simpa using longer,below⟩

theorem isLeaf_iff (found : tree.at? path = some p) :
    p.isLeaf = true ↔ ∀ beyond ∈ tree.root.paths,path <+: beyond → beyond = path := by
  rw [Position.isLeaf_iff]
  constructor
  · intro none beyond inside longer
    obtain ⟨rest,rfl⟩ := longer
    obtain ⟨q,below⟩ := mem_paths.mp inside
    by_cases nonempty : rest = []
    · rw [nonempty,List.append_nil]
    · rw [at?_below found,none rest nonempty] at below
      cases below
  · intro last rest nonempty
    cases below : p.at? rest with
    | none => rfl
    | some q =>
        have inside : path ++ rest ∈ tree.root.paths := mem_paths.mpr ⟨q,by rw [at?_below found]; exact below⟩
        exact absurd (by simpa using last _ inside (List.prefix_append _ _)) nonempty

theorem depth_eq (found : tree.at? path = some p) : p.depth = path.length := by
  induction path using List.reverseRecOn generalizing p with
  | nil =>
      cases Option.some.inj found
      rfl
  | append_singleton path index ih =>
      obtain ⟨parent,child,above,_,rfl⟩ := Position.at?_concat found
      rw [List.length_append,← ih above]
      rfl

theorem isRoot_iff (found : tree.at? path = some p) : p.isRoot = true ↔ path = [] := by
  have depth := depth_eq found
  rw [← List.length_eq_zero_iff,← depth]
  exact List.isEmpty_iff_length_eq_zero

theorem parent?_eq (found : tree.at? path = some p) :
    p.parent? = if path = [] then none else tree.at? path.dropLast := by
  induction path using List.reverseRecOn with
  | nil =>
      cases Option.some.inj found
      rfl
  | append_singleton path index _ =>
      obtain ⟨parent,child,above,_,rfl⟩ := Position.at?_concat found
      rw [List.dropLast_concat,if_neg (by simp)]
      exact above.symm

-- Two children, the first of them with a child.
def family : Tree :=
  ⟨.mk 3 "root" .empty [.mk 1 "x" .empty [.mk 0 "y" .empty []],.mk 2 "z" .empty []],rfl⟩

end Tree
end SharedTree
