import SharedTree.Proofs.Transform.Changed
import SharedTree.Proofs.Transform.Pruning

namespace SharedTree.Transform
open Node (subtreeAll)

def Untouched (s : Selector) (p : Position) : Prop := ∀ q ∈ p.preorder,s.selects q = false

theorem untouched_iff {s : Selector} {n : Node} : Untouched s ⟨n,above⟩ ↔
    s.selects ⟨n,above⟩ = false ∧ ∀ child ∈ n.children,Untouched s ⟨child,n :: above⟩ := by
  unfold Untouched
  rw [Position.preorder_eq,List.forall_mem_cons,List.forall_mem_flatMap,Position.children,List.forall_mem_map]
  rfl

def Shares (s : Selector) (p : Position) (m : Node) : Prop := m.is p.node = true ↔ Untouched s p

-- What a node leaves behind: itself if untouched, and otherwise not itself.
structure LeavesShared (s : Selector) (p : Position) (nodes : List Node) : Prop where
  shares : List.Forall₂ (Shares s) (p.preorder.filter fun q => !s.selects q) (subtreeAll nodes)
  own : Untouched s p → nodes = [p.node]
  only : p.node.serial ∈ nodes.map Node.serial → Untouched s p

structure LeavesEachShared (s : Selector) (parent : Position) (children nodes : List Node) : Prop where
  shares : List.Forall₂ (Shares s)
    (((children.map parent.under).flatMap Position.preorder).filter fun q => !s.selects q) (subtreeAll nodes)
  own : (∀ child ∈ children,Untouched s (parent.under child)) → nodes = children
  only : nodes.map Node.serial = children.map Node.serial → ∀ child ∈ children,Untouched s (parent.under child)

section

variable {s : Selector} {n : Node} {above nodes rest first others : List Node} {start last : Nat}

theorem serial_not_renewed (distinct : n.Distinct) (older : n.serial < start)
    (renewed : Node.Renewed (subtreeAll n.children) start last nodes) : n.serial ∉ nodes.map Node.serial := by
  intro member
  obtain ⟨m,inside,same⟩ := List.mem_map.mp member
  rcases renewed.origin m (Node.mem_subtreeAll.mpr ⟨m,inside,m.mem_subtree_self⟩) with held | made
  · exact (Node.distinct_iff.mp distinct).1 (List.mem_map.mpr ⟨m,held,same⟩)
  · omega

theorem leaves_selected (selected : s.selects ⟨n,above⟩ = true) (absent : n.serial ∉ nodes.map Node.serial)
    (below : LeavesEachShared s ⟨n,above⟩ n.children nodes) : LeavesShared s ⟨n,above⟩ nodes where
  shares := by
    rw [Position.preorder_eq,List.filter_cons_of_neg (by simp [selected])]
    exact below.shares
  own untouched := by
    rw [(untouched_iff.mp untouched).1] at selected
    cases selected
  only member := absurd member absent

theorem leaves_kept (kept : s.selects ⟨n,above⟩ = false) (older : n.serial < last)
    (below : LeavesEachShared s ⟨n,above⟩ n.children nodes) :
    LeavesShared s ⟨n,above⟩ [((n.rebuild nodes).run last).1] := by
  rw [Node.rebuild_run]
  cases same : Node.identicalAll nodes n.children with
  | true =>
      have serials : nodes.map Node.serial = n.children.map Node.serial := by simpa [Node.identicalAll] using same
      have untouched : Untouched s ⟨n,above⟩ := untouched_iff.mpr ⟨kept,below.only serials⟩
      have children : nodes = n.children := below.own (untouched_iff.mp untouched).2
      have shares := below.shares
      rw [children] at shares
      refine ⟨?_,fun _ => rfl,fun _ => untouched⟩
      rw [Position.preorder_eq,List.filter_cons_of_pos (by simp [kept]),Node.subtreeAll_singleton,Node.subtree_eq]
      exact .cons (iff_of_true (by simp [Node.is]) untouched) shares
  | false =>
      have touched : ¬ Untouched s ⟨n,above⟩ := by
        intro untouched
        rw [below.own (untouched_iff.mp untouched).2] at same
        simp [Node.identicalAll] at same
      have apart : ¬ last = n.serial := by omega
      refine ⟨?_,fun untouched => absurd untouched touched,?_⟩
      · rw [Position.preorder_eq,List.filter_cons_of_pos (by simp [kept]),Node.subtreeAll_singleton,Node.subtree_eq]
        exact .cons (iff_of_false (by simp [Node.is,apart]) touched) below.shares
      · intro member
        simp at member
        omega

-- The first child can only be found again among what it left behind itself.
theorem leaves_append {parent : Position} {child : Node} (absent : child.serial ∉ others.map Node.serial)
    (own : LeavesShared s (parent.under child) first) (later : LeavesEachShared s parent rest others) :
    LeavesEachShared s parent (child :: rest) (first ++ others) where
  shares := by
    rw [List.map_cons,List.flatMap_cons,List.filter_append,Node.subtreeAll_append]
    exact List.rel_append own.shares later.shares
  own untouched := by
    rw [own.own (untouched child (.head _)),later.own fun sibling member => untouched sibling (.tail _ member)]
    rfl
  only serials := by
    have present : child.serial ∈ (first ++ others).map Node.serial := by
      rw [serials]
      exact .head _
    rw [List.map_append,List.mem_append] at present
    have untouched := own.only (present.resolve_right absent)
    rw [own.own untouched] at serials
    intro sibling member
    cases List.mem_cons.mp member with
    | inl here =>
        subst here
        exact untouched
    | inr further => exact later.only (List.cons.inj serials).2 sibling further

end

mutual
theorem splice_shared (s : Selector) : (n : Node) → (above : List Node) → (effects : Effects) → n.Distinct →
    (∀ m ∈ n.subtree,m.serial < effects.next) →
    ∃ nodes later,(splice s above n).run effects = (nodes,later) ∧ LeavesShared s ⟨n,above⟩ nodes
  | .mk serial name attributes children,above,effects,distinct,older => by
      have below := (Node.distinct_iff.mp distinct).2
      have known : ∀ m ∈ subtreeAll children,m.serial < effects.next := fun m member => older m (.tail _ member)
      have own := older _ (Node.mem_subtree_self _)
      obtain ⟨kept,middle,ran,leaves⟩ := spliceEach_shared s children (.mk serial name attributes children) above effects
        below known
      obtain ⟨_,_,again,_,renewed⟩ := spliceEach_exact s children (.mk serial name attributes children :: above) effects
        below known
      cases ran.symm.trans again
      rw [splice_run ran]
      cases selected : s.selects ⟨.mk serial name attributes children,above⟩ with
      | true => exact ⟨_,_,rfl,leaves_selected selected (serial_not_renewed distinct own renewed) leaves⟩
      | false => exact ⟨_,_,rfl,leaves_kept selected (Nat.lt_of_lt_of_le own renewed.grown) leaves⟩

theorem spliceEach_shared (s : Selector) : (nodes : List Node) → (parent : Node) → (above : List Node) →
    (effects : Effects) → ((subtreeAll nodes).map Node.serial).Nodup → (∀ m ∈ subtreeAll nodes,m.serial < effects.next) →
    ∃ kept later,(spliceEach s (parent :: above) nodes).run effects = (kept,later) ∧
      LeavesEachShared s ⟨parent,above⟩ nodes kept
  | [],_,_,effects,_,_ => ⟨[],effects,rfl,.nil,fun _ => rfl,fun _ _ member => (List.not_mem_nil member).elim⟩
  | child :: rest,parent,above,effects,distinct,older => by
      have known : ∀ m ∈ child.subtree,m.serial < effects.next := fun m member => older m (List.mem_append_left _ member)
      have own := Node.distinct_of_mem distinct (.head _)
      rw [subtreeAll,List.map_append] at distinct
      obtain ⟨_,apart,separate⟩ := List.nodup_append.mp distinct
      obtain ⟨first,middle,ran,leaves⟩ := splice_shared s child (parent :: above) effects own known
      obtain ⟨_,_,again,_,renewed⟩ := splice_exact s child (parent :: above) effects own known
      cases ran.symm.trans again
      have later : ∀ m ∈ subtreeAll rest,m.serial < middle.next := fun m member =>
        Nat.lt_of_lt_of_le (older m (List.mem_append_right _ member)) renewed.grown
      obtain ⟨others,last,spliced,others_leave⟩ := spliceEach_shared s rest parent above middle apart later
      obtain ⟨_,_,once_more,_,rest_renewed⟩ := spliceEach_exact s rest (parent :: above) middle apart later
      cases spliced.symm.trans once_more
      refine ⟨first ++ others,last,spliceEach_run ran spliced,leaves_append ?_ leaves others_leave⟩
      intro member
      obtain ⟨m,inside,same⟩ := List.mem_map.mp member
      rcases rest_renewed.origin m (Node.mem_subtreeAll.mpr ⟨m,inside,m.mem_subtree_self⟩) with held | made
      · exact separate _ (List.mem_map_of_mem child.mem_subtree_self) _ (List.mem_map_of_mem held) same.symm
      · have bound := known child child.mem_subtree_self
        have grown := renewed.grown
        omega
end

section

variable {change : Node → Fresh Node} {s : Selector} {n child : Node}

end

-- A subtree whose nodes are all quiet is handed to its parent as it is, by whatever run,
-- and a tree of quiet nodes comes back as it is.
structure HandsOn (handed : Position → Work (List Node)) (quiet : Position → Prop) (t : Transform) : Prop where
  below : ∀ (p : Position) (index : Nat) (child : Node),p.node.child? index = some child →
    (∀ q ∈ (p.under child).preorder,quiet q) → ∀ effects,((handed p).run effects).1[index]? = some child
  whole : ∀ tree : Tree,(∀ q ∈ tree.top.preorder,quiet q) → ∀ effects,((t.apply tree).run effects).1 = .ok tree

theorem HandsOn.weaken {handed : Position → Work (List Node)} {quiet calm : Position → Prop} {t : Transform}
    (handsOn : HandsOn handed quiet t) (calmer : ∀ q,calm q → quiet q) : HandsOn handed calm t where
  below p index child here given := handsOn.below p index child here fun q member => calmer q (given q member)
  whole tree given := handsOn.whole tree fun q member => calmer q (given q member)

end SharedTree.Transform
