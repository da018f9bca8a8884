import SharedTree.Proofs.Node.Equal
import SharedTree.Proofs.Transform.Changed
import SharedTree.Proofs.Tree.Repeated

namespace SharedTree
namespace Transform
open Node (subtreeAll Memory Equal KeepsNode reach_held reach_after reach_children)

-- What is asked of a change. It makes nodes over its argument and over nodes of its own,
-- and makes equal nodes of equal nodes, whatever their numbers.
structure Lawful (own : List Node) (change : Node → Fresh Node) : Prop where
  keeps {held : List Node} {n : Node} (known : ∀ k ∈ n :: own,k ∈ subtreeAll held) : KeepsNode held (change n)
  equal {n m : Node} {next start : Nat} (memory : Memory next (n :: own)) (again : Memory start (m :: own))
    (same : Equal n m) : Equal ((change n).run next).1 ((change m).run start).1

theorem edits_lawful (edits : List Edit) : Lawful [] (Edit.run edits) where
  keeps known := Edit.run_keeps edits (known _ (.head _))
  equal _ _ same := Edit.run_equal edits same _ _

-- The plain rebuild: children first, then the node over them, then the change where it is wanted.
mutual
def remade (chosen : Position → Bool) (change : Node → Fresh Node) (above : List Node) : Node → Fresh Node
  | n@(.mk _ _ _ children) => do
    let children ← remadeEach chosen change (n :: above) children
    let bare ← n.withChildren children
    if chosen ⟨n,above⟩ then change bare else pure bare

def remadeEach (chosen : Position → Bool) (change : Node → Fresh Node) (above : List Node) : List Node → Fresh (List Node)
  | [] => pure []
  | child :: rest => do
    let child ← remade chosen change above child
    let rest ← remadeEach chosen change above rest
    pure (child :: rest)
end

section

variable {own held other nodes ms ks : List Node} {change : Node → Fresh Node} {chosen : Position → Bool} {s : Selector}
  {p parent : Position} {n m child : Node} {above rest : List Node} {first middle last next start between : Nat}

theorem remade_run (each : (remadeEach chosen change (n :: above) n.children).run start = (ks,between)) :
    (remade chosen change above n).run start =
      if chosen ⟨n,above⟩ then (change (.mk between n.name n.attributes ks)).run (between + 1)
      else (.mk between n.name n.attributes ks,between + 1) := by
  cases n
  rw [Node.children_mk] at each
  rw [remade,bind_run each]
  show StateT.run (if chosen _ then _ else _) (between + 1) = _
  split <;> rfl

theorem remadeEach_run (one : (remade chosen change above child).run start = (m,middle))
    (others : (remadeEach chosen change above rest).run middle = (ks,last)) :
    (remadeEach chosen change above (child :: rest)).run start = (m :: ks,last) := by
  rw [remadeEach,bind_run one,bind_run others]
  rfl

mutual
theorem remade_keeps (lawful : Lawful own change) (chosen : Position → Bool) : (n : Node) → (above : List Node) →
    (held : List Node) → (∀ k ∈ n :: own,k ∈ subtreeAll held) → KeepsNode held (remade chosen change above n)
  | .mk serial name attributes children,above,held,known => by
      obtain ⟨inside,mine⟩ := List.forall_mem_cons.mp known
      rw [remade]
      refine (remadeEach_keeps lawful chosen children _ held (List.forall_mem_append.mpr ⟨reach_children inside,mine⟩)).bind
        fun made => ?_
      refine (Node.keeps_make (fun k member => reach_held (List.mem_append_left held member)) _ _).bind fun bare => ?_
      split
      · exact lawful.keeps (List.forall_mem_cons.mpr ⟨reach_held (.head _),fun k member =>
          reach_after (reach_after (mine k member) _) [bare]⟩)
      · exact Node.keeps_own (reach_held (.head _))

theorem remadeEach_keeps (lawful : Lawful own change) (chosen : Position → Bool) : (nodes : List Node) → (above : List Node) →
    (held : List Node) → (∀ k ∈ nodes ++ own,k ∈ subtreeAll held) →
    Node.Keeps held (remadeEach chosen change above nodes) id
  | [],above,held,known => by
      rw [remadeEach]
      exact .pure fun _ member => (List.not_mem_nil member).elim
  | child :: rest,above,held,known => by
      obtain ⟨inside,later⟩ := List.forall_mem_cons.mp known
      have mine := (List.forall_mem_append.mp later).2
      rw [remadeEach]
      refine (remade_keeps lawful chosen child above held (List.forall_mem_cons.mpr ⟨inside,mine⟩)).bind fun made => ?_
      refine (remadeEach_keeps lawful chosen rest above _ fun k member => reach_after (later k member) [made]).bind
        fun others => .pure (List.forall_mem_cons.mpr ⟨?_,?_⟩)
      · exact reach_after (reach_held (.head _)) _
      · exact fun k member => reach_held (List.mem_append_left _ member)
end

theorem keepIfAlike_held (lawful : Lawful own change) (memory : Memory next held) (known : ∀ k ∈ n :: own,k ∈ subtreeAll held) :
    Memory ((keepIfAlike change n).run next).2 (((keepIfAlike change n).run next).1 :: held) ∧
      Equal ((keepIfAlike change n).run next).1 ((change n).run next).1 := by
  have after : Memory ((change n).run next).2 (((change n).run next).1 :: held) := lawful.keeps known next memory
  have inside := reach_after (known n (.head _)) [((change n).run next).1]
  rw [keepIfAlike_run]
  show Memory ((change n).run next).2 ((if ((change n).run next).1.alike n then n else ((change n).run next).1) :: held) ∧
    Equal (if ((change n).run next).1.alike n then n else ((change n).run next).1) _
  split
  · rename_i alike
    refine ⟨after.mono (List.forall_mem_cons.mpr ⟨inside,fun k given => reach_held (.tail _ given)⟩),?_⟩
    exact Node.equal_symm (after.alike_equal (reach_held (.head _)) inside alike)
  · exact ⟨after,Node.equal_self _⟩

def RemadeOne (own : List Node) (s : Selector) (change : Node → Fresh Node) (p : Position) (first : Nat) (m : Node)
    (last : Nat) : Prop :=
  ∀ held,Memory first held → (∀ k ∈ p.node :: own,k ∈ subtreeAll held) → Memory last (m :: held) ∧
    ∀ start other,Memory start other → (∀ k ∈ p.node :: own,k ∈ subtreeAll other) →
      Equal m ((remade s.selects change p.above p.node).run start).1

def RemadeAll (own : List Node) (s : Selector) (change : Node → Fresh Node) (parent : Position) (nodes : List Node)
    (first : Nat) (ms : List Node) (last : Nat) : Prop :=
  ∀ held,Memory first held → (∀ k ∈ nodes ++ own,k ∈ subtreeAll held) → Memory last (ms ++ held) ∧
    ∀ start other,Memory start other → (∀ k ∈ nodes ++ own,k ∈ subtreeAll other) →
      List.Forall₂ Equal ms ((remadeEach s.selects change (parent.node :: parent.above) nodes).run start).1

theorem remade_more (lawful : Lawful own change) (one : RemadeOne own s change (parent.under child) first m middle)
    (others : RemadeAll own s change parent nodes middle ms last) :
    RemadeAll own s change parent (child :: nodes) first (m :: ms) last := by
  intro held memory known
  obtain ⟨inside,below⟩ := List.forall_mem_cons.mp known
  have mine := (List.forall_mem_append.mp below).2
  obtain ⟨kept,equal⟩ := one held memory (List.forall_mem_cons.mpr ⟨inside,mine⟩)
  obtain ⟨after,rest⟩ := others (m :: held) kept fun k member => reach_after (below k member) [m]
  refine ⟨after.fewer List.perm_middle.symm.subset,?_⟩
  intro start other again known_again
  obtain ⟨child_again,below_again⟩ := List.forall_mem_cons.mp known_again
  have known_child := List.forall_mem_cons.mpr ⟨child_again,(List.forall_mem_append.mp below_again).2⟩
  have made := remade_keeps lawful s.selects child (parent.node :: parent.above) other known_child start again
  rw [remadeEach_run rfl rfl]
  exact .cons (equal start other again known_child) (rest _ _ made fun k member => reach_after (below_again k member) _)

theorem remade_under (lawful : Lawful own change) (chosen : Position → Bool) (again : Memory start other)
    (known : ∀ k ∈ n :: own,k ∈ subtreeAll other) :
    ∃ bare later,(remade chosen change above n).run start =
        (if chosen ⟨n,above⟩ then (change bare).run later else (bare,later)) ∧ Memory later (bare :: own) ∧
      bare.name = n.name ∧ bare.attributes = n.attributes ∧
      bare.children = ((remadeEach chosen change (n :: above) n.children).run start).1 := by
  obtain ⟨inside,mine⟩ := List.forall_mem_cons.mp known
  have made := remadeEach_keeps lawful chosen n.children (n :: above) other
    (List.forall_mem_append.mpr ⟨reach_children inside,mine⟩) start again
  have bare := made.make (fun k member => reach_held (List.mem_append_left other member)) n.name n.attributes
  refine ⟨_,_,remade_run rfl,bare.mono (List.forall_mem_cons.mpr ⟨reach_held (.head _),fun k given => ?_⟩),rfl,rfl,rfl⟩
  exact reach_after (reach_after (mine k given) _) [_]

theorem remade_settled (lawful : Lawful own change) (below : RemadeAll own s change p p.node.children first ms middle) :
    RemadeOne own s change p first ((settle s change p ms).run middle).1 ((settle s change p ms).run middle).2 := by
  intro held memory known
  obtain ⟨inside,mine⟩ := List.forall_mem_cons.mp known
  obtain ⟨kept,equal⟩ := below held memory (List.forall_mem_append.mpr ⟨reach_children inside,mine⟩)
  obtain ⟨rebuilt,later,ran,named,attributed,children,made⟩ :=
    kept.rebuild (reach_after inside ms) fun k member => reach_held (List.mem_append_left held member)
  have known_made : ∀ k ∈ rebuilt :: own,k ∈ subtreeAll (rebuilt :: (ms ++ held)) :=
    List.forall_mem_cons.mpr ⟨reach_held (.head _),fun k member => reach_after (reach_after (mine k member) ms) [rebuilt]⟩
  have plain : ∀ start other,Memory start other → (∀ k ∈ p.node :: own,k ∈ subtreeAll other) →
      ∃ bare between,(remade s.selects change p.above p.node).run start =
          (if s.selects p then (change bare).run between else (bare,between)) ∧
        Memory between (bare :: own) ∧ Equal rebuilt bare := by
    intro start other again known_again
    obtain ⟨bare,between,plain,bare_memory,names,attributes,nodes⟩ := remade_under lawful s.selects again known_again
    refine ⟨bare,between,plain,bare_memory,Node.equal_iff.mpr ⟨named.trans names.symm,?_,?_⟩⟩
    · rw [attributed,attributes]
      exact Attributes.same_self _
    · rw [children,nodes]
      exact equal start other again (List.forall_mem_append.mpr
        ⟨reach_children (known_again _ (.head _)),fun k member => known_again k (.tail _ member)⟩)
  have later_held : held ⊆ ms ++ held := List.subset_append_right ms held
  rw [settle_run ran]
  cases selected : s.selects p with
  | false =>
      refine ⟨made.fewer (List.cons_subset_cons _ later_held),fun start other again known_again => ?_⟩
      obtain ⟨bare,between,plain,_,same⟩ := plain start other again known_again
      rw [plain,selected]
      exact same
  | true =>
      obtain ⟨settled,shown⟩ := keepIfAlike_held lawful made known_made
      refine ⟨settled.fewer (List.cons_subset_cons _ (List.subset_cons_of_subset _ later_held)),
        fun start other again known_again => ?_⟩
      obtain ⟨bare,between,plain,bare_memory,same⟩ := plain start other again known_again
      rw [plain,selected]
      exact Node.equal_trans shown (lawful.equal (made.mono known_made) bare_memory same)

theorem remade_carries (lawful : Lawful own change) (s : Selector) :
    Carries s change (RemadeOne own s change) (RemadeAll own s change) where
  none _ _ := fun _ memory _ => ⟨memory,fun _ _ _ _ => .nil⟩
  more := remade_more lawful
  settled := remade_settled lawful

inductive Concludes (root : Node) : Except TransformError Tree → Prop where
  | made {out : Tree} (own : out.root = root) (once : root.StandsOnce) : Concludes root (.ok out)
  | doubled {child : Node} {path other : List Nat} (apart : path ≠ other) (first : root.follow? path = some child)
      (second : root.follow? other = some child) : Concludes root (.error (.tree (.duplicateParent child.name)))

theorem finish_concludes {tree : Tree} (memory : Memory next held) (own : m ∈ held) (input : tree.root ∈ held) :
    Concludes m (finish tree m) := by
  unfold finish
  split
  · rename_i itself
    have same : m = tree.root := memory.single m (reach_held own) tree.root (reach_held input) (beq_iff_eq.mp itself)
    rw [same]
    exact .made rfl (Node.distinct_iff_once.mp (tree.distinct memory input))
  · cases done : Tree.ofRoot m with
    | ok out =>
        have root := Tree.ofRoot_root done
        exact .made root ((Tree.ofRoot_once memory own).mp ⟨out,done,root⟩)
    | error error =>
        obtain ⟨child,path,other,rfl,apart,first,second⟩ := Tree.ofRoot_twice memory own done
        exact .doubled apart first second

theorem changed_same (lawful : Lawful own change) (s : Selector) {tree : Tree} {effects later : Effects} {root : Node}
    (memory : Memory effects.next (tree.root :: own)) (ran : (changeSelected s change [] tree.root).run effects = (root,later)) :
    Concludes root (finish tree root) ∧ root.same ((remade s.selects change [] tree.root).run later.next).1 = true := by
  obtain ⟨kept,equal⟩ := (remade_carries lawful s).selected tree.root [] effects (tree.root :: own) memory fun _ => reach_held
  rw [ran] at kept equal
  have known : ∀ k ∈ tree.root :: own,k ∈ subtreeAll (root :: tree.root :: own) := fun k member => reach_held (.tail _ member)
  have both := remade_keeps lawful s.selects tree.root [] _ known later.next kept
  refine ⟨finish_concludes kept (.head _) (.tail _ (.head _)),?_⟩
  rw [both.same_outline (reach_held (.tail _ (.head _))) (reach_held (.head _))]
  exact equal later.next _ kept known

end

theorem mapped_exact {own : List Node} {change : Node → Fresh Node} (lawful : Lawful own change) (s : Selector) (tree : Tree)
    (effects : Effects) (memory : Memory effects.next (tree.root :: own)) :
    (∃ root later,(changeBelow change tree.root).run effects.next = (root,later) ∧
      Concludes root (((mapNodes change).apply tree).run effects).1 ∧
      root.same ((remade (fun _ => true) change [] tree.root).run later).1 = true) ∧
    (∀ title,∃ root later,(changeSelected s change [] tree.root).run effects = (root,later) ∧
      Concludes root (((mapSelected title s change).apply tree).run effects).1 ∧
      root.same ((remade s.selects change [] tree.root).run later.next).1 = true) ∧
    ∀ title change,(mapSelected title .any change).apply = (mapNodes change).apply := by
  refine ⟨?_,?_,mapSelected_any⟩
  · obtain ⟨concludes,same⟩ := changed_same lawful .any memory (changeSelected_any change tree.root [] effects)
    exact ⟨_,_,rfl,concludes,same⟩
  · intro title
    obtain ⟨concludes,same⟩ := changed_same lawful s memory rfl
    exact ⟨_,_,rfl,concludes,same⟩

-- The children of all nodes change places, also those of a node that is itself moved.
theorem mapped_reversed : Lawful [] (Edit.run [.reverse]) ∧ Memory 4 [Tree.family.root] ∧
    ∃ root later,(changeBelow (Edit.run [.reverse]) Tree.family.root).run 4 = (root,later) ∧
      Concludes root (((mapNodes (Edit.run [.reverse])).apply Tree.family).run ⟨4,[]⟩).1 ∧
      root.same ((remade (fun _ => true) (Edit.run [.reverse]) [] Tree.family.root).run later).1 = true ∧
      root.children.map Node.name = ["z","x"] := by
  have memory := Tree.family_memory (List.forall_mem_singleton.mpr Tree.family.root.mem_subtree_self)
  obtain ⟨root,later,ran,concludes,same⟩ := (mapped_exact (edits_lawful [.reverse]) .any Tree.family ⟨4,[]⟩ memory).1
  have names : ((changeBelow (Edit.run [.reverse]) Tree.family.root).run 4).1.children.map Node.name = ["z","x"] := by decide
  rw [ran] at names
  exact ⟨edits_lawful [.reverse],memory,root,later,ran,concludes,same,names⟩

end Transform
end SharedTree
