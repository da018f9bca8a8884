import SharedTree.Node.Edit
import SharedTree.Proofs.Node.Memory

namespace SharedTree
namespace Node

variable {held other : List Node} {n child : Node} {next : Nat}

theorem reach_mono (inside : ∀ k ∈ other,k ∈ subtreeAll held) : ∀ m ∈ subtreeAll other,m ∈ subtreeAll held := by
  intro m member
  obtain ⟨k,given,below⟩ := mem_subtreeAll.mp member
  obtain ⟨top,own,deeper⟩ := mem_subtreeAll.mp (inside k given)
  exact mem_subtreeAll.mpr ⟨top,own,mem_subtree_trans below deeper⟩

theorem reach_held (member : n ∈ held) : n ∈ subtreeAll held := mem_subtreeAll.mpr ⟨n,member,n.mem_subtree_self⟩

theorem reach_after (inside : n ∈ subtreeAll held) (more : List Node) : n ∈ subtreeAll (more ++ held) := by
  rw [subtreeAll_append]
  exact List.mem_append_right _ inside

theorem reach_children (inside : n ∈ subtreeAll held) : ∀ k ∈ n.children,k ∈ subtreeAll held := by
  intro k member
  obtain ⟨top,own,deeper⟩ := mem_subtreeAll.mp inside
  exact mem_subtreeAll.mpr ⟨top,own,mem_subtree_trans (mem_subtree_child member) deeper⟩

theorem Memory.mono (memory : Memory next held) (inside : ∀ k ∈ other,k ∈ subtreeAll held) : Memory next other :=
  ⟨fun m member => memory.given m (reach_mono inside m member),
    fun m first k second => memory.single m (reach_mono inside m first) k (reach_mono inside k second)⟩

theorem Memory.fewer (memory : Memory next held) (fewer : other ⊆ held) : Memory next other :=
  memory.mono fun _ member => reach_held (fewer member)

theorem Memory.make (memory : Memory next held) (inside : ∀ k ∈ other,k ∈ subtreeAll held) (name : String)
    (attributes : Attributes) : Memory (next + 1) (.mk next name attributes other :: held) := by
  have cases : ∀ m ∈ subtreeAll (.mk next name attributes other :: held),
      m = .mk next name attributes other ∨ m ∈ subtreeAll held := by
    intro m member
    rw [subtreeAll,subtree_eq,List.cons_append,List.mem_cons,List.mem_append] at member
    exact member.imp_right fun either => either.elim (reach_mono inside m) id
  refine ⟨?_,?_⟩
  · intro m member
    rcases cases m member with rfl | known
    · exact Nat.lt_succ_self next
    · exact Nat.lt_succ_of_lt (memory.given m known)
  · intro m first k second same
    rcases cases m first with rfl | known <;> rcases cases k second with rfl | told
    · rfl
    · exact absurd same (Nat.ne_of_gt (memory.given k told))
    · exact absurd same (Nat.ne_of_lt (memory.given m known))
    · exact memory.single m known k told same

-- With these nodes at hand, the nodes in the answer are at hand as well.
def Keeps (held : List Node) (run : Fresh α) (nodes : α → List Node) : Prop :=
  ∀ next,Memory next held → Memory (StateT.run run next).2 (nodes (StateT.run run next).1 ++ held)

theorem Keeps.pure {answer : α} {nodes : α → List Node} (inside : ∀ k ∈ nodes answer,k ∈ subtreeAll held) :
    Keeps held (Pure.pure answer) nodes := by
  intro next memory
  refine memory.mono fun k member => ?_
  rcases List.mem_append.mp member with given | given
  · exact inside k given
  · exact reach_held given

theorem Keeps.bind {run : Fresh α} {rest : α → Fresh β} {nodes : α → List Node} {last : β → List Node}
    (first : Keeps held run nodes) (second : ∀ answer,Keeps (nodes answer ++ held) (rest answer) last) :
    Keeps held (run >>= rest) last := by
  intro next memory
  have after := second _ _ (first next memory)
  refine after.mono fun k member => reach_held ?_
  rcases List.mem_append.mp member with given | given
  · exact List.mem_append_left _ given
  · exact List.mem_append_right _ (List.mem_append_right _ given)

theorem Keeps.map {run : Fresh α} {change : α → β} {nodes : β → List Node} (first : Keeps held run (nodes ∘ change)) :
    Keeps held (change <$> run) nodes := first

abbrev KeepsNode (held : List Node) (run : Fresh Node) : Prop := Keeps held run ([·])

abbrev KeepsAny (held : List Node) (run : Fresh (Option Node)) : Prop := Keeps held run Option.toList

theorem keeps_own (inside : n ∈ subtreeAll held) : KeepsNode held (pure n) :=
  .pure fun k member => by rwa [List.mem_singleton.mp member]

theorem keeps_make (inside : ∀ k ∈ other,k ∈ subtreeAll held) (name : String) (attributes : Attributes) :
    KeepsNode held (make name attributes other) := fun _ memory => memory.make inside name attributes

theorem keeps_leaf (name : String) (attributes : Attributes) : KeepsNode held (leaf name attributes) :=
  keeps_make (fun _ member => (List.not_mem_nil member).elim) name attributes

theorem keeps_push (inside : n ∈ subtreeAll held) (known : child ∈ subtreeAll held) : KeepsNode held (n.pushChild child) := by
  refine keeps_make ?_ n.name n.attributes
  intro k member
  rcases List.mem_append.mp member with own | last
  · exact reach_children inside k own
  · rwa [List.mem_singleton.mp last]

theorem keeps_replace (inside : n ∈ subtreeAll held) (known : child ∈ subtreeAll held) (index : Nat) :
    KeepsAny held (n.replaceChild? index child) := by
  unfold replaceChild?
  split
  · refine .map (keeps_make ?_ n.name n.attributes)
    intro k member
    rcases List.mem_or_eq_of_mem_set member with own | rfl
    · exact reach_children inside k own
    · exact known
  · exact .pure fun _ member => (List.not_mem_nil member).elim

theorem keeps_remove (inside : n ∈ subtreeAll held) (index : Nat) : KeepsAny held (n.removeChild? index) := by
  unfold removeChild?
  split
  · exact .map (keeps_make (fun k member => reach_children inside k (List.mem_of_mem_eraseIdx member)) n.name n.attributes)
  · exact .pure fun _ member => (List.not_mem_nil member).elim

theorem keeps_rebuild (inside : n ∈ subtreeAll held) (known : ∀ k ∈ other,k ∈ subtreeAll held) :
    KeepsNode held (n.rebuild other) := by
  unfold rebuild
  split
  · exact keeps_own inside
  · exact keeps_make known n.name n.attributes

theorem keeps_getD {run : Fresh (Option Node)} (inside : n ∈ subtreeAll held) (edit : KeepsAny held run) :
    KeepsNode held (do return (← run).getD n) := by
  refine edit.bind fun answer => .pure fun k member => ?_
  rw [List.mem_singleton.mp member]
  cases answer with
  | none => exact inside
  | some m => exact reach_held (.head _)

theorem keeps_update {change : Node → Fresh Node} (path : List Nat) (inside : n ∈ subtreeAll held)
    (each : ∀ m ∈ subtreeAll held,KeepsNode held (change m)) :
    KeepsAny held (updateAt? change path n) := by
  induction path generalizing n with
  | nil => exact .map (each n inside)
  | cons index path ih =>
      unfold updateAt?
      split
      · exact .pure fun _ member => (List.not_mem_nil member).elim
      · rename_i child here
        refine (ih (reach_children inside child (List.mem_of_getElem? here))).bind fun answer => ?_
        cases answer with
        | none => exact .pure fun _ member => (List.not_mem_nil member).elim
        | some changed => exact keeps_replace (reach_after inside _) (reach_held (.head _)) index

end Node

namespace Edit
open Node

theorem change_keeps {held : List Node} {n : Node} (edit : Edit) (inside : n ∈ subtreeAll held) :
    KeepsNode held (edit.change n) := by
  have children := reach_children inside
  cases edit with
  | rename | extend | set | unset | clearAttributes | rebuild | size | names => exact keeps_make children _ _
  | only | onlyLeaf | onlyAttribute => exact keeps_own inside
  | push name => exact (keeps_leaf name .empty).bind fun child => keeps_push (reach_after inside _) (reach_held (.head _))
  | duplicate index =>
      cases here : n.child? index with
      | some child =>
          simp only [change,here]
          exact keeps_push inside (children child (List.mem_of_getElem? here))
      | none =>
          simp only [change,here]
          exact keeps_own inside
  | remove index => exact keeps_getD inside (keeps_remove inside index)
  | replace index name =>
      refine (keeps_leaf name .empty).bind fun child => ?_
      exact keeps_getD (reach_after inside _) (keeps_replace (reach_after inside _) (reach_held (.head _)) index)
  | reverse => exact keeps_make (fun k member => children k (List.mem_reverse.mp member)) _ _
  | clear => exact keeps_make (fun _ member => (List.not_mem_nil member).elim) _ _

theorem run_keeps {held : List Node} {n : Node} (edits : List Edit) (inside : n ∈ subtreeAll held) :
    KeepsNode held (run edits n) := by
  induction edits generalizing held n with
  | nil => exact keeps_own inside
  | cons edit rest ih =>
      unfold run
      split
      · exact keeps_own inside
      · exact ih inside
      · exact (edit.change_keeps inside).bind fun changed => ih (reach_held (.head _))

end Edit
end SharedTree
