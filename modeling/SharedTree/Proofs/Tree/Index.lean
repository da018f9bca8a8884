import SharedTree.Proofs.Node.Memory
import SharedTree.Proofs.Value.Table
import SharedTree.Tree.Index

namespace SharedTree
namespace Node

theorem links_eq (n : Node) : n.links = n.children.map (fun child => (child.serial,n)) ++ linksAll n.children := by
  cases n
  rfl

theorem linksAll_eq (nodes : List Node) : linksAll nodes = nodes.flatMap links := by
  induction nodes with
  | nil => rfl
  | cons child nodes ih => rw [linksAll,ih,List.flatMap_cons]

theorem serialsBelowAll_eq (nodes : List Node) : serialsBelowAll nodes = nodes.flatMap serialsBelow := by
  induction nodes with
  | nil => rfl
  | cons child nodes ih => rw [serialsBelowAll,ih,List.flatMap_cons]

theorem links_serials (n : Node) : n.links.map Prod.fst = n.serialsBelow := by
  induction n using children_induction with
  | step n ih =>
      rw [links_eq,serialsBelow_eq,linksAll_eq,serialsBelowAll_eq,List.map_append,List.map_map,List.map_flatMap]
      congr 1
      exact List.flatMap_congr ih

theorem mem_links {n m : Node} : (number,m) ∈ n.links ↔ m ∈ n.subtree ∧ ∃ child ∈ m.children,child.serial = number := by
  induction n using children_induction with
  | step n ih =>
      rw [links_eq,linksAll_eq,List.mem_append,List.mem_map,List.mem_flatMap,mem_subtree]
      constructor
      · intro either
        rcases either with ⟨child,member,same⟩ | ⟨child,member,deeper⟩
        · obtain ⟨rfl,rfl⟩ := Prod.mk.inj same
          exact ⟨.inl rfl,child,member,rfl⟩
        · obtain ⟨inside,held⟩ := (ih child member).mp deeper
          exact ⟨.inr ⟨child,member,inside⟩,held⟩
      · intro given
        obtain ⟨rfl | ⟨child,member,inside⟩,held⟩ := given
        · obtain ⟨child,member,rfl⟩ := held
          exact .inl ⟨child,member,rfl⟩
        · exact .inr ⟨child,member,(ih child member).mpr ⟨inside,held⟩⟩

end Node

namespace Tree

variable {tree : Tree} {node : Node} {p : Position} {path : List Nat} {next : Nat} {held : List Node}

theorem links_distinct (tree : Tree) : (tree.root.links.map Prod.fst).Nodup := by
  rw [Node.links_serials]
  exact Node.serialsBelow_nodup tree.unshared

theorem parentOf?_child {child : Node} (inside : node ∈ tree.root.subtree) (member : child ∈ node.children) :
    tree.parentOf? child = some node :=
  Table.lookup_of_mem tree.links_distinct (Node.mem_links.mpr ⟨inside,child,member,rfl⟩)

theorem parentOf?_isSome : (tree.parentOf? node).isSome = true ↔ node.serial ∈ tree.root.serialsBelow := by
  rw [← Node.links_serials,parentOf?,List.mem_map]
  constructor
  · intro given
    obtain ⟨parent,found⟩ := Option.isSome_iff_exists.mp given
    obtain ⟨before,after,split,_⟩ := List.lookup_eq_some_iff.mp found
    exact ⟨(node.serial,parent),by rw [split]; simp,rfl⟩
  · intro given
    obtain ⟨entry,member,same⟩ := given
    have keyed : (node.serial,entry.2) ∈ tree.root.links := by rwa [← same]
    rw [Table.lookup_of_mem tree.links_distinct keyed]
    rfl

theorem parentOf?_root (distinct : tree.root.Distinct) : tree.parentOf? tree.root = none := by
  rw [← Option.not_isSome_iff_eq_none,parentOf?_isSome]
  exact (List.nodup_cons.mp (tree.root.serials_below.nodup_iff.mp distinct)).1

theorem mem_subtree_iff : node ∈ tree.root.subtree ↔ ∃ path p,tree.at? path = some p ∧ p.node = node :=
  Position.mem_subtree_at? (p := tree.top)

theorem node_mem (found : tree.at? path = some p) : p.node ∈ tree.root.subtree := Position.node_mem_subtree found

theorem parentOf?_eq (distinct : tree.root.Distinct) (found : tree.at? path = some p) :
    tree.parentOf? p.node = p.parent?.map Position.node := by
  induction path using List.reverseRecOn with
  | nil =>
      cases Option.some.inj found
      exact parentOf?_root distinct
  | append_singleton path index _ =>
      obtain ⟨parent,child,above,here,rfl⟩ := Position.at?_concat found
      exact parentOf?_child (node_mem above) (List.mem_of_getElem? here)

theorem climb_eq (distinct : tree.root.Distinct) (found : tree.at? path = some p) (enough : path.length ≤ steps) :
    tree.climb steps p.node = p.above := by
  induction path using List.reverseRecOn generalizing p steps with
  | nil =>
      cases Option.some.inj found
      cases steps with
      | zero => rfl
      | succ steps => rw [climb,parentOf?_eq distinct found]; rfl
  | append_singleton path index ih =>
      obtain ⟨parent,child,above,_,rfl⟩ := Position.at?_concat found
      rw [List.length_append,List.length_singleton] at enough
      obtain ⟨fewer,rfl⟩ := Nat.exists_eq_add_of_le' (Nat.le_of_add_left_le enough)
      rw [climb,parentOf?_eq distinct found]
      show parent.node :: tree.climb fewer parent.node = parent.node :: parent.above
      rw [ih above (by omega)]

theorem contains_serial : tree.contains node = true ↔ node.serial ∈ tree.root.subtree.map Node.serial := by
  rw [tree.root.serials_below.mem_iff,List.mem_cons,contains,Bool.or_eq_true,parentOf?_isSome,Node.is,beq_iff_eq]

theorem contains_iff (memory : Node.Memory next held) (own : tree.root ∈ held) (known : node ∈ held) :
    tree.contains node = true ↔ node ∈ tree.root.subtree := by
  have reached : ∀ {n m : Node},n ∈ held → m ∈ n.subtree → m ∈ Node.subtreeAll held := fun member inside =>
    Node.mem_subtreeAll.mpr ⟨_,member,inside⟩
  rw [contains_serial,List.mem_map]
  constructor
  · intro given
    obtain ⟨m,inside,same⟩ := given
    rwa [← memory.single m (reached own inside) node (reached known node.mem_subtree_self) same]
  · intro inside
    exact ⟨node,inside,rfl⟩

theorem locate?_place (distinct : tree.root.Distinct) (found : tree.at? path = some p) : tree.locate? p.node = some p := by
  have inside : tree.contains p.node = true := contains_serial.mpr (List.mem_map_of_mem (node_mem found))
  have deep : path.length < tree.size := Position.path_shorter found
  rw [locate?,if_pos inside,climb_eq distinct found (Nat.le_of_lt deep)]

theorem locate?_isSome : (tree.locate? node).isSome = tree.contains node := by
  unfold locate?
  split <;> simp_all

theorem locate?_iff (memory : Node.Memory next held) (own : tree.root ∈ held) (known : node ∈ held) :
    tree.locate? node = some p ↔ p.node = node ∧ ∃ path,tree.at? path = some p := by
  have distinct := tree.distinct memory own
  constructor
  · intro located
    have present : tree.contains node = true := by
      rw [← locate?_isSome,located]
      rfl
    obtain ⟨path,q,found,rfl⟩ := mem_subtree_iff.mp ((contains_iff memory own known).mp present)
    rw [locate?_place distinct found] at located
    cases located
    exact ⟨rfl,path,found⟩
  · intro given
    obtain ⟨rfl,path,found⟩ := given
    exact locate?_place distinct found

theorem located (memory : Node.Memory next held) (own : tree.root ∈ held) (known : node ∈ held)
    (inside : node ∈ tree.root.subtree) :
    ∃ path p,tree.at? path = some p ∧ p.node = node ∧ tree.locate? node = some p := by
  obtain ⟨path,p,found,same⟩ := mem_subtree_iff.mp inside
  exact ⟨path,p,found,same,(locate?_iff memory own known).mpr ⟨same,path,found⟩⟩

theorem locate?_none (memory : Node.Memory next held) (own : tree.root ∈ held) (known : node ∈ held) :
    tree.locate? node = none ↔ node ∉ tree.root.subtree := by
  rw [← contains_iff memory own known,← locate?_isSome,Option.not_isSome_iff_eq_none]

theorem siblingIndex?_under {parent : Position} {child : Node} (distinct : parent.node.Distinct)
    (here : parent.node.child? index = some child) : (parent.under child).siblingIndex? = some index := by
  have bound : index < parent.node.children.length := (List.getElem?_eq_some_iff.mp here).1
  have own : parent.node.children[index] = child := (List.getElem?_eq_some_iff.mp here).2
  show parent.node.children.findIdx? (·.is child) = some index
  rw [List.findIdx?_eq_some_iff_getElem]
  refine ⟨bound,by rw [own]; exact beq_self_eq_true _,?_⟩
  intro earlier less same
  have before : parent.node.children[earlier]? = some parent.node.children[earlier] := List.getElem?_eq_getElem _
  have one := Node.index_unique (Node.distinct_iff.mp distinct).2 before here (Node.mem_subtree_self _) child.mem_subtree_self
    (by simpa [Node.is] using same)
  omega

theorem indexPath_eq (distinct : tree.root.Distinct) (found : tree.at? path = some p) : p.indexPath = path := by
  induction path using List.reverseRecOn generalizing p with
  | nil =>
      cases Option.some.inj found
      rfl
  | append_singleton path index ih =>
      obtain ⟨parent,child,above,here,rfl⟩ := Position.at?_concat found
      have last := siblingIndex?_under (Node.distinct_subtree distinct (node_mem above)) here
      have longer : (parent.under child).indexPath = parent.indexPath ++ [index] := by
        show (((parent.under child) :: parent :: parent.ancestors).filterMap Position.siblingIndex?).reverse = _
        rw [List.filterMap_cons_some last,List.reverse_cons]
        rfl
      rw [longer,ih above]

end Tree
end SharedTree
