import SharedTree.Proofs.Node.Memory

namespace SharedTree.Node

-- Nodes that come out of a change: old ones that were kept, and new ones under numbers given out
-- meanwhile.
structure Renewed (old : List Node) (first last : Nat) (nodes : List Node) : Prop where
  grown : first ≤ last
  origin : ∀ m ∈ subtreeAll nodes,m ∈ old ∨ first ≤ m.serial ∧ m.serial < last
  distinct : ((subtreeAll nodes).map serial).Nodup

namespace Renewed

variable {old other nodes rest : List Node} {first middle last : Nat}

theorem mono (renewed : Renewed old first last nodes) (inside : ∀ m ∈ old,m ∈ other) : Renewed other first last nodes :=
  ⟨renewed.grown,fun m member => (renewed.origin m member).imp_left (inside m),renewed.distinct⟩

theorem later (renewed : Renewed old first middle nodes) (grown : middle ≤ last) : Renewed old first last nodes :=
  ⟨Nat.le_trans renewed.grown grown,fun m member => (renewed.origin m member).imp_right fun made =>
    ⟨made.1,Nat.lt_of_lt_of_le made.2 grown⟩,renewed.distinct⟩

theorem children {n : Node} (renewed : Renewed old first last [n]) : Renewed old first last n.children := by
  have distinct : n.Distinct := distinct_of_mem renewed.distinct (.head _)
  refine ⟨renewed.grown,fun m member => renewed.origin m ?_,(distinct_iff.mp distinct).2⟩
  rw [subtreeAll_singleton]
  exact mem_subtree_all member

theorem nil (first : Nat) : Renewed [] first first [] :=
  ⟨Nat.le_refl _,fun _ member => (List.not_mem_nil member).elim,.nil⟩

theorem below (renewed : Renewed old first last nodes) (older : ∀ m ∈ old,m.serial < first) :
    ∀ m ∈ subtreeAll nodes,m.serial < last := by
  intro m member
  have grown := renewed.grown
  rcases renewed.origin m member with kept | made
  · have bound := older m kept
    omega
  · exact made.2

theorem append (left : Renewed old first middle nodes) (right : Renewed other middle last rest)
    (older : ∀ m ∈ old ++ other,m.serial < first) (apart : ((old ++ other).map serial).Nodup) :
    Renewed (old ++ other) first last (nodes ++ rest) := by
  have early := left.below fun m member => older m (List.mem_append_left _ member)
  have grown := left.grown
  refine ⟨Nat.le_trans left.grown right.grown,?_,?_⟩
  · intro m member
    rw [subtreeAll_append] at member
    rcases List.mem_append.mp member with inside | inside
    · refine (left.origin m inside).imp (List.mem_append_left _) fun made => ⟨made.1,?_⟩
      exact Nat.lt_of_lt_of_le made.2 right.grown
    · refine (right.origin m inside).imp (List.mem_append_right _) fun made => ⟨?_,made.2⟩
      exact Nat.le_trans left.grown made.1
  · rw [subtreeAll_append,List.map_append,List.nodup_append]
    refine ⟨left.distinct,right.distinct,?_⟩
    intro a leftMember b rightMember
    obtain ⟨m,inside,rfl⟩ := List.mem_map.mp leftMember
    obtain ⟨k,among,rfl⟩ := List.mem_map.mp rightMember
    have bound := early m inside
    rcases right.origin k among with kept | made
    · rcases left.origin m inside with held | fresh
      · rw [List.map_append,List.nodup_append] at apart
        exact apart.2.2 _ (List.mem_map_of_mem held) _ (List.mem_map_of_mem kept)
      · have old := older k (List.mem_append_right _ kept)
        omega
    · omega

theorem make (renewed : Renewed old first last nodes) (older : ∀ m ∈ old,m.serial < first) (name : String)
    (attributes : Attributes) : Renewed old first (last + 1) [.mk last name attributes nodes] := by
  have bound := renewed.below older
  have grown := renewed.grown
  refine ⟨by omega,?_,?_⟩
  · intro m member
    rw [subtreeAll_singleton,subtree_eq] at member
    rcases List.mem_cons.mp member with rfl | inside
    · exact .inr ⟨grown,Nat.lt_succ_self last⟩
    · exact (renewed.origin m inside).imp_right fun made => ⟨made.1,by omega⟩
  · rw [subtreeAll_singleton]
    refine distinct_iff.mpr ⟨?_,renewed.distinct⟩
    intro repeated
    obtain ⟨m,inside,same⟩ := List.mem_map.mp repeated
    have less := bound m inside
    rw [same] at less
    exact Nat.lt_irrefl _ less

end Renewed

theorem eq_of_serials {left right : List Node} (same : left.map serial = right.map serial)
    (single : ∀ a ∈ left,∀ b ∈ right,a.serial = b.serial → a = b) : left = right := by
  induction left generalizing right with
  | nil => exact (List.map_eq_nil_iff.mp same.symm).symm
  | cons a left ih =>
      cases right with
      | nil => cases same
      | cons b right =>
          obtain ⟨head,tail⟩ := List.cons.inj same
          rw [single a (.head _) b (.head _) head]
          rw [ih tail fun x first y second => single x (.tail _ first) y (.tail _ second)]

theorem rebuild_run (n : Node) (nodes : List Node) (next : Nat) : (n.rebuild nodes).run next =
    if identicalAll nodes n.children then (n,next) else (.mk next n.name n.attributes nodes,next + 1) := by
  unfold rebuild
  split <;> rfl

theorem rebuild_exact {n : Node} {nodes : List Node} {first last : Nat} (distinct : n.Distinct)
    (older : ∀ m ∈ n.subtree,m.serial < first) (renewed : Renewed (subtreeAll n.children) first last nodes) :
    ∃ m later,(n.rebuild nodes).run last = (m,later) ∧ m.name = n.name ∧ m.attributes = n.attributes ∧
      m.children = nodes ∧ Renewed n.subtree first later [m] := by
  have inside : ∀ m ∈ subtreeAll n.children,m ∈ n.subtree := fun _ => mem_subtree_all
  have grown := renewed.grown
  rw [rebuild_run]
  cases kept : identicalAll nodes n.children with
  | false => exact ⟨_,_,rfl,rfl,rfl,rfl,(renewed.mono inside).make older _ _⟩
  | true =>
      have same : nodes = n.children := by
        refine eq_of_serials (by simpa [identicalAll] using kept) fun a first b second equal => ?_
        have child : b ∈ subtreeAll n.children := mem_subtreeAll.mpr ⟨b,second,b.mem_subtree_self⟩
        rcases renewed.origin a (mem_subtreeAll.mpr ⟨a,first,a.mem_subtree_self⟩) with held | made
        · exact eq_of_serial (distinct_iff.mp distinct).2 held child equal
        · have bound := older b (inside b child)
          omega
      refine ⟨n,last,rfl,rfl,rfl,same.symm,renewed.grown,?_,?_⟩
      · intro m member
        exact .inl (by rwa [subtreeAll_singleton] at member)
      · rw [subtreeAll_singleton]
        exact distinct

end SharedTree.Node
