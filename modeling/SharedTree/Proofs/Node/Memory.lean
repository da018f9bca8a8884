import SharedTree.Proofs.Tree.Made
import SharedTree.Proofs.Tree.Places

namespace SharedTree
namespace Node

mutual
def subtree : Node → List Node
  | .mk serial name attributes children => .mk serial name attributes children :: subtreeAll children

def subtreeAll : List Node → List Node
  | [] => []
  | child :: rest => child.subtree ++ subtreeAll rest
end

theorem subtree_eq (n : Node) : n.subtree = n :: subtreeAll n.children := by cases n; rfl

theorem subtreeAll_append (left right : List Node) : subtreeAll (left ++ right) = subtreeAll left ++ subtreeAll right := by
  induction left with
  | nil => rfl
  | cons n left ih => rw [List.cons_append,subtreeAll,subtreeAll,ih,List.append_assoc]

theorem subtreeAll_singleton (n : Node) : subtreeAll [n] = n.subtree := List.append_nil _

theorem mem_subtreeAll {nodes : List Node} : m ∈ subtreeAll nodes ↔ ∃ n ∈ nodes,m ∈ n.subtree := by
  induction nodes with
  | nil => simp [subtreeAll]
  | cons n nodes ih => simp [subtreeAll,ih]

theorem subtreeAll_eq (nodes : List Node) : subtreeAll nodes = nodes.flatMap subtree := by
  induction nodes with
  | nil => rfl
  | cons n nodes ih => rw [subtreeAll,ih,List.flatMap_cons]

theorem mem_subtree {m n : Node} : m ∈ n.subtree ↔ m = n ∨ ∃ child ∈ n.children,m ∈ child.subtree := by
  rw [subtree_eq,List.mem_cons,mem_subtreeAll]

theorem mem_subtree_self (n : Node) : n ∈ n.subtree := mem_subtree.mpr (.inl rfl)

theorem mem_subtree_below {m n child : Node} (member : child ∈ n.children) (inside : m ∈ child.subtree) : m ∈ n.subtree :=
  mem_subtree.mpr (.inr ⟨child,member,inside⟩)

theorem mem_subtree_child {n child : Node} (member : child ∈ n.children) : child ∈ n.subtree :=
  mem_subtree_below member child.mem_subtree_self

theorem mem_subtree_all {m n : Node} (inside : m ∈ subtreeAll n.children) : m ∈ n.subtree := by
  rw [subtree_eq]
  exact .tail _ inside

theorem mem_subtree_trans {m k n : Node} (below : m ∈ k.subtree) (inside : k ∈ n.subtree) : m ∈ n.subtree := by
  induction n using children_induction with
  | step n ih =>
      rcases mem_subtree.mp inside with rfl | ⟨child,member,deeper⟩
      · exact below
      · exact mem_subtree_below member (ih child member deeper)

theorem size_mem_subtree {m n : Node} (inside : m ∈ n.subtree) : m.size ≤ n.size := by
  induction n using children_induction with
  | step n ih =>
      rcases mem_subtree.mp inside with rfl | ⟨child,member,deeper⟩
      · exact Nat.le_refl _
      · have bound := ih child member deeper
        have less := size_child member
        omega

theorem not_mem_below {n child : Node} (member : child ∈ n.children) : n ∉ child.subtree := by
  intro inside
  have bound := size_mem_subtree inside
  have less := size_child member
  omega

def Distinct (n : Node) : Prop := (n.subtree.map serial).Nodup

theorem distinct_iff {n : Node} :
    n.Distinct ↔ n.serial ∉ (subtreeAll n.children).map serial ∧ ((subtreeAll n.children).map serial).Nodup := by
  rw [Distinct,subtree_eq,List.map_cons,List.nodup_cons]

theorem distinct_of_mem {nodes : List Node} (distinct : ((subtreeAll nodes).map serial).Nodup) (member : n ∈ nodes) :
    n.Distinct := by
  obtain ⟨before,after,rfl⟩ := List.append_of_mem member
  rw [subtreeAll_append,subtreeAll,List.map_append,List.map_append] at distinct
  exact (List.nodup_append.mp (List.nodup_append.mp distinct).2.1).1

theorem distinct_subtree {m n : Node} (distinct : n.Distinct) (inside : m ∈ n.subtree) : m.Distinct := by
  induction n using children_induction with
  | step n ih =>
      rcases mem_subtree.mp inside with rfl | ⟨child,member,deeper⟩
      · exact distinct
      · exact ih child member (distinct_of_mem (distinct_iff.mp distinct).2 member) deeper

theorem eq_of_serial {nodes : List Node} (distinct : (nodes.map serial).Nodup) (first : m ∈ nodes) (second : k ∈ nodes)
    (same : m.serial = k.serial) : m = k := List.inj_on_of_nodup_map distinct first second same

theorem index_unique {nodes : List Node} {n m a b : Node} {index other : Nat}
    (distinct : ((subtreeAll nodes).map serial).Nodup) (first : nodes[index]? = some n) (second : nodes[other]? = some m)
    (inside : a ∈ n.subtree) (below : b ∈ m.subtree) (same : a.serial = b.serial) : index = other := by
  induction nodes generalizing index other with
  | nil => cases first
  | cons node nodes ih =>
      rw [subtreeAll,List.map_append] at distinct
      obtain ⟨_,rest,apart⟩ := List.nodup_append.mp distinct
      match index,other with
      | 0,0 => rfl
      | index + 1,other + 1 => rw [ih rest first second]
      | 0,other + 1 =>
          cases Option.some.inj first
          have later : b ∈ subtreeAll nodes := mem_subtreeAll.mpr ⟨m,List.mem_of_getElem? second,below⟩
          exact absurd same (apart _ (List.mem_map_of_mem inside) _ (List.mem_map_of_mem later))
      | index + 1,0 =>
          cases Option.some.inj second
          have later : a ∈ subtreeAll nodes := mem_subtreeAll.mpr ⟨n,List.mem_of_getElem? first,inside⟩
          exact absurd same.symm (apart _ (List.mem_map_of_mem below) _ (List.mem_map_of_mem later))

theorem serials_belowAll {nodes : List Node}
    (each : ∀ child ∈ nodes,(child.subtree.map serial).Perm (child.serial :: child.serialsBelow)) :
    ((subtreeAll nodes).map serial).Perm (nodes.map serial ++ serialsBelowAll nodes) := by
  induction nodes with
  | nil => exact .refl _
  | cons child nodes ih =>
      rw [subtreeAll,List.map_append,List.map_cons,serialsBelowAll]
      have both := (each child (.head _)).append (ih fun node member => each node (.tail _ member))
      have moved : (child.serialsBelow ++ (nodes.map serial ++ serialsBelowAll nodes)).Perm
          (nodes.map serial ++ (child.serialsBelow ++ serialsBelowAll nodes)) := by
        rw [← List.append_assoc,← List.append_assoc]
        exact List.perm_append_comm.append_right _
      exact both.trans (.cons _ moved)

theorem serials_below (n : Node) : (n.subtree.map serial).Perm (n.serial :: n.serialsBelow) := by
  induction n using children_induction with
  | step n ih =>
      rw [subtree_eq,serialsBelow_eq]
      exact .cons _ (serials_belowAll ih)

theorem note_nodup {nodes : List Node} {seen later : List Nat} (noted : note seen nodes = .ok later) (start : seen.Nodup) :
    later.Nodup ∧ later.Perm (nodes.map serial ++ seen) := by
  induction nodes generalizing seen with
  | nil =>
      cases noted
      exact ⟨start,.refl _⟩
  | cons child nodes ih =>
      rw [note] at noted
      split at noted
      · cases noted
      · rename_i fresh
        have absent : child.serial ∉ seen := by simpa using fresh
        obtain ⟨distinct,perm⟩ := ih noted (List.nodup_cons.mpr ⟨absent,start⟩)
        exact ⟨distinct,perm.trans List.perm_middle⟩

theorem noteBelowAll_nodup {nodes : List Node} {seen later : List Nat}
    (each : ∀ child ∈ nodes,∀ {seen later : List Nat},noteBelow seen child = .ok later → seen.Nodup →
      later.Nodup ∧ later.Perm (child.serialsBelow ++ seen))
    (noted : noteBelowAll seen nodes = .ok later) (start : seen.Nodup) :
    later.Nodup ∧ later.Perm (serialsBelowAll nodes ++ seen) := by
  induction nodes generalizing later with
  | nil =>
      cases noted
      exact ⟨start,.refl _⟩
  | cons child nodes ih =>
      rw [noteBelowAll] at noted
      split at noted
      · cases noted
      · rename_i middle first
        obtain ⟨before,perm⟩ := ih (fun node member => each node (.tail _ member)) first
        obtain ⟨distinct,last⟩ := each child (.head _) noted before
        rw [serialsBelowAll,List.append_assoc]
        exact ⟨distinct,last.trans (perm.append_left _)⟩

theorem noteBelow_nodup {n : Node} {seen later : List Nat} (noted : noteBelow seen n = .ok later) (start : seen.Nodup) :
    later.Nodup ∧ later.Perm (n.serialsBelow ++ seen) := by
  induction n using children_induction generalizing seen later with
  | step n ih =>
      obtain ⟨s,name,attributes,children⟩ := n
      rw [noteBelow] at noted
      split at noted
      · cases noted
      · rename_i middle first
        obtain ⟨before,perm⟩ := note_nodup first start
        obtain ⟨distinct,last⟩ := noteBelowAll_nodup ih noted before
        refine ⟨distinct,(last.trans (perm.append_left _)).trans ?_⟩
        rw [serialsBelow_eq,← List.append_assoc]
        exact List.perm_append_comm.append_right _

theorem serialsBelow_nodup {n : Node} (unshared : n.repeated? = none) : n.serialsBelow.Nodup := by
  unfold repeated? at unshared
  split at unshared
  · cases unshared
  · rename_i later noted
    obtain ⟨distinct,perm⟩ := noteBelow_nodup noted .nil
    rw [List.append_nil] at perm
    exact perm.nodup_iff.mp distinct

theorem unrepeated_of_distinct {n : Node} (distinct : n.Distinct) : n.repeated? = none :=
  unrepeated (List.nodup_cons.mp (n.serials_below.nodup_iff.mp distinct)).2

-- The numbers below `next` have been given out, and each stands for one node
-- among all that can be reached from the nodes held.
structure Memory (next : Nat) (held : List Node) : Prop where
  given : ∀ m ∈ subtreeAll held,m.serial < next
  single : ∀ m ∈ subtreeAll held,∀ k ∈ subtreeAll held,m.serial = k.serial → m = k

theorem Memory.older (memory : Memory next held) (member : n ∈ held) : ∀ m ∈ n.subtree,m.serial < next := fun m inside =>
  memory.given m (mem_subtreeAll.mpr ⟨n,member,inside⟩)

theorem Memory.apart (memory : Memory next held) (member : n ∈ held) : n.serial ∉ (subtreeAll n.children).map serial := by
  intro below
  obtain ⟨m,inside,same⟩ := List.mem_map.mp below
  obtain ⟨child,among,deeper⟩ := mem_subtreeAll.mp inside
  have reached : m ∈ n.subtree := mem_subtree_below among deeper
  have itself : m = n := memory.single m (mem_subtreeAll.mpr ⟨_,member,reached⟩) n
    (mem_subtreeAll.mpr ⟨_,member,n.mem_subtree_self⟩) same
  rw [itself] at deeper
  exact not_mem_below among deeper

theorem mem_child {held : List Node} {n child : Node} (known : n ∈ subtreeAll held) (member : child ∈ n.children) :
    child ∈ subtreeAll held := by
  obtain ⟨k,given,inside⟩ := mem_subtreeAll.mp known
  exact mem_subtreeAll.mpr ⟨k,given,mem_subtree_trans (mem_subtree_child member) inside⟩

-- In a memory one and the same node has one outline, so it changes nothing that identity is asked for first.
theorem Memory.same_outline (memory : Memory next held) {a b : Node} (first : a ∈ subtreeAll held)
    (second : b ∈ subtreeAll held) : a.same b = a.outline.same b.outline := by
  rw [Bool.eq_iff_iff]
  induction a using children_induction generalizing b with
  | step a ih =>
      have below : List.Forall₂ (fun c d => c.same d = true) a.children b.children ↔
          List.Forall₂ (fun c d => c.outline.same d.outline = true) a.children b.children :=
        all_alike fun c left d right => ih c left (mem_child first left) (mem_child second right)
      rw [same_iff,outline_same,below]
      refine or_iff_right_of_imp fun numbers => ?_
      cases memory.single a first b second numbers
      exact outline_same.mp a.outline_same_self

theorem Memory.of_distinct {n : Node} {held : List Node} (distinct : n.Distinct)
    (bound : ∀ number ∈ n.subtree.map serial,number < next) (inside : ∀ k ∈ held,k ∈ n.subtree) : Memory next held := by
  have among : ∀ m ∈ subtreeAll held,m ∈ n.subtree := by
    intro m member
    obtain ⟨k,given,below⟩ := mem_subtreeAll.mp member
    exact mem_subtree_trans below (inside k given)
  exact ⟨fun m member => bound _ (List.mem_map_of_mem (among m member)),
    fun m first k second same => eq_of_serial distinct (among m first) (among k second) same⟩

end Node

namespace Tree

theorem distinct {tree : Tree} (memory : Node.Memory next held) (member : tree.root ∈ held) : tree.root.Distinct := by
  rw [Node.Distinct,tree.root.serials_below.nodup_iff,List.nodup_cons]
  refine ⟨?_,Node.serialsBelow_nodup tree.unshared⟩
  intro repeated
  have perm := tree.root.serials_below
  rw [Node.subtree_eq,List.map_cons,List.perm_cons] at perm
  exact memory.apart member (perm.mem_iff.mpr repeated)

theorem ofRoot_distinct {root : Node} (distinct : root.Distinct) : ∃ tree : Tree,ofRoot root = .ok tree ∧ tree.root = root :=
  ⟨⟨root,Node.unrepeated_of_distinct distinct⟩,ofRoot_own ⟨root,_⟩,rfl⟩

theorem family_memory {held : List Node} (inside : ∀ k ∈ held,k ∈ family.root.subtree) : Node.Memory 4 held := by
  have distinct : (family.root.subtree.map Node.serial).Nodup := by decide
  exact .of_distinct distinct (by decide) inside

end Tree

namespace Position

theorem preorder_nodes (p : Position) : p.preorder.map node = p.node.subtree := by
  obtain ⟨n,above⟩ := p
  induction n using Node.children_induction generalizing above with
  | step n ih =>
      rw [preorder_eq,List.map_cons,List.map_flatMap,children,List.flatMap_map,Node.subtree_eq,Node.subtreeAll_eq]
      congr 1
      exact List.flatMap_congr fun child member => ih child member _

theorem mem_subtree_at? {p : Position} {m : Node} : m ∈ p.node.subtree ↔ ∃ path q,p.at? path = some q ∧ q.node = m := by
  obtain ⟨n,above⟩ := p
  induction n using Node.children_induction generalizing above with
  | step n ih =>
      rw [Node.mem_subtree]
      constructor
      · intro either
        rcases either with rfl | ⟨child,member,deeper⟩
        · exact ⟨[],_,rfl,rfl⟩
        · obtain ⟨index,here⟩ := List.mem_iff_getElem?.mp member
          obtain ⟨path,q,found,same⟩ := (ih child member (n :: above)).mp deeper
          exact ⟨index :: path,q,(at?_child here path).trans found,same⟩
      · intro given
        obtain ⟨path,q,found,rfl⟩ := given
        cases path with
        | nil =>
            cases Option.some.inj found
            exact .inl rfl
        | cons index path =>
            cases here : n.child? index with
            | none => simp [at?,here] at found
            | some child =>
                rw [at?_child here] at found
                have member := List.mem_of_getElem? here
                exact .inr ⟨child,member,(ih child member (n :: above)).mpr ⟨path,q,found,rfl⟩⟩

theorem node_mem_subtree {p q : Position} {path : List Nat} (found : p.at? path = some q) : q.node ∈ p.node.subtree :=
  mem_subtree_at?.mpr ⟨path,q,found,rfl⟩

theorem path_shorter {p q : Position} {path : List Nat} (found : p.at? path = some q) : path.length < p.node.size := by
  induction path generalizing p with
  | nil =>
      rw [Node.size_eq]
      exact Nat.lt_of_lt_of_le Nat.zero_lt_one (Nat.le_add_right _ _)
  | cons index path ih =>
      cases here : p.node.child? index with
      | none => simp [at?,here] at found
      | some child =>
          rw [at?_child here] at found
          have less := Node.size_child (List.mem_of_getElem? here)
          exact Nat.lt_of_le_of_lt (ih found) less

theorem path_unique {start p q : Position} {path other : List Nat} (distinct : start.node.Distinct)
    (first : start.at? path = some p) (second : start.at? other = some q) (same : p.node.serial = q.node.serial) :
    path = other := by
  induction path generalizing start other with
  | nil =>
      cases Option.some.inj first
      cases other with
      | nil => rfl
      | cons index other =>
          cases here : p.node.child? index with
          | none => simp [at?,here] at second
          | some child =>
              rw [at?_child here] at second
              have below := Node.mem_subtreeAll.mpr ⟨child,List.mem_of_getElem? here,node_mem_subtree second⟩
              exact absurd (List.mem_map.mpr ⟨q.node,below,same.symm⟩) (Node.distinct_iff.mp distinct).1
  | cons index path ih =>
      cases here : start.node.child? index with
      | none => simp [at?,here] at first
      | some child =>
          rw [at?_child here] at first
          have member := List.mem_of_getElem? here
          have below := (Node.distinct_iff.mp distinct).2
          cases other with
          | nil =>
              cases Option.some.inj second
              have inside := Node.mem_subtreeAll.mpr ⟨child,member,node_mem_subtree first⟩
              exact absurd (List.mem_map.mpr ⟨p.node,inside,same⟩) (Node.distinct_iff.mp distinct).1
          | cons place other =>
              cases there : start.node.child? place with
              | none => simp [at?,there] at second
              | some sibling =>
                  rw [at?_child there] at second
                  have one := Node.index_unique below here there (node_mem_subtree first) (node_mem_subtree second) same
                  subst one
                  cases here.symm.trans there
                  rw [ih (Node.distinct_of_mem below member) first second]

end Position

namespace Tree

variable {tree : Tree} {p q : Position} {path other : List Nat}

theorem path_unique (distinct : tree.root.Distinct) (first : tree.at? path = some p) (second : tree.at? other = some q)
    (same : p.node.serial = q.node.serial) : path = other :=
  Position.path_unique distinct first second same

theorem above_iff (distinct : tree.root.Distinct) (first : tree.at? path = some p) (second : tree.at? other = some q) :
    p ∈ q.ancestors ↔ path <+: other ∧ path ≠ other := by
  rw [mem_ancestors second]
  constructor
  · intro given
    obtain ⟨before,nearer,here⟩ := given
    rwa [path_unique distinct first here rfl]
  · intro nearer
    exact ⟨path,nearer,first⟩

end Tree
end SharedTree
