import SharedTree.Proofs.Node.Outline
import SharedTree.Tree.Basic

namespace SharedTree
namespace Node

mutual
def serialsBelow : Node → List Nat
  | .mk _ _ _ children => children.map serial ++ serialsBelowAll children

def serialsBelowAll : List Node → List Nat
  | [] => []
  | child :: rest => child.serialsBelow ++ serialsBelowAll rest
end

theorem serialsBelow_eq (n : Node) :
    n.serialsBelow = n.children.map serial ++ serialsBelowAll n.children := by cases n; rfl

theorem note_distinct {nodes : List Node} {seen : List Nat} (distinct : (nodes.map serial ++ seen).Nodup) :
    ∃ later,note seen nodes = .ok later ∧ later.Perm (nodes.map serial ++ seen) := by
  induction nodes generalizing seen with
  | nil => exact ⟨seen,rfl,.refl _⟩
  | cons child nodes ih =>
      rw [List.map_cons,List.cons_append] at distinct
      have moved : (nodes.map serial ++ child.serial :: seen).Perm (child.serial :: (nodes.map serial ++ seen)) :=
        List.perm_middle
      obtain ⟨later,noted,perm⟩ := ih (moved.nodup_iff.mpr distinct)
      have absent : child.serial ∉ seen := fun present =>
        (List.nodup_cons.mp distinct).1 (List.mem_append_right _ present)
      have fresh : seen.contains child.serial = false := by simpa using absent
      refine ⟨later,?_,perm.trans moved⟩
      rw [note,fresh]
      exact noted

theorem noteBelowAll_distinct {nodes : List Node} {seen : List Nat}
    (each : ∀ child ∈ nodes,∀ seen : List Nat,(child.serialsBelow ++ seen).Nodup →
      ∃ later,noteBelow seen child = .ok later ∧ later.Perm (child.serialsBelow ++ seen))
    (distinct : (serialsBelowAll nodes ++ seen).Nodup) :
    ∃ later,noteBelowAll seen nodes = .ok later ∧ later.Perm (serialsBelowAll nodes ++ seen) := by
  induction nodes with
  | nil => exact ⟨seen,rfl,.refl _⟩
  | cons child nodes ih =>
      rw [serialsBelowAll,List.append_assoc] at distinct
      obtain ⟨middle,noted,first⟩ := ih (fun node member => each node (.tail _ member)) (List.nodup_append.mp distinct).2.1
      have both : (child.serialsBelow ++ middle).Perm (child.serialsBelow ++ (serialsBelowAll nodes ++ seen)) :=
        first.append_left _
      obtain ⟨later,again,last⟩ := each child (.head _) middle (both.nodup_iff.mpr distinct)
      refine ⟨later,?_,?_⟩
      · rw [noteBelowAll,noted]
        exact again
      · rw [serialsBelowAll,List.append_assoc]
        exact last.trans both

theorem noteBelow_distinct {n : Node} {seen : List Nat} (distinct : (n.serialsBelow ++ seen).Nodup) :
    ∃ later,noteBelow seen n = .ok later ∧ later.Perm (n.serialsBelow ++ seen) := by
  induction n using children_induction generalizing seen with
  | step n ih =>
      have swapped : (serialsBelowAll n.children ++ (n.children.map serial ++ seen)).Perm (n.serialsBelow ++ seen) := by
        rw [serialsBelow_eq,← List.append_assoc]
        exact List.perm_append_comm.append_right _
      have whole := swapped.nodup_iff.mpr distinct
      obtain ⟨middle,noted,first⟩ := note_distinct (List.nodup_append.mp whole).2.1
      have both := first.append_left (serialsBelowAll n.children)
      obtain ⟨later,again,last⟩ := noteBelowAll_distinct (fun child member _ => ih child member) (both.nodup_iff.mpr whole)
      refine ⟨later,?_,(last.trans both).trans swapped⟩
      cases n
      rw [children_mk] at noted
      rw [noteBelow,noted]
      exact again

theorem unrepeated {n : Node} (distinct : n.serialsBelow.Nodup) : n.repeated? = none := by
  have start : (n.serialsBelow ++ []).Nodup := by rwa [List.append_nil]
  obtain ⟨later,noted,_⟩ := noteBelow_distinct start
  rw [repeated?,noted]

end Node

namespace Outline

mutual
theorem make_serials : (o : Outline) → (next : Nat) →
    ∃ n later,o.make.run next = (n,later) ∧ n.outline = o ∧ next ≤ n.serial ∧ n.serial < later ∧
      n.serialsBelow.Nodup ∧ ∀ s ∈ n.serialsBelow,next ≤ s ∧ s < n.serial
  | .mk name attributes children,next => by
      obtain ⟨nodes,middle,made,outlines,grown,distinct,bounds⟩ := makeAll_serials children next
      refine ⟨.mk middle name attributes nodes,middle + 1,?_,?_,grown,Nat.lt_succ_self _,distinct,bounds⟩
      · rw [make,StateT.run_bind,made]
        rfl
      · rw [Node.outline_eq,Node.children_mk,outlines]
        rfl

theorem makeAll_serials : (outlines : List Outline) → (next : Nat) →
    ∃ nodes later,(makeAll outlines).run next = (nodes,later) ∧ nodes.map Node.outline = outlines ∧ next ≤ later ∧
      (nodes.map Node.serial ++ Node.serialsBelowAll nodes).Nodup ∧
      ∀ s ∈ nodes.map Node.serial ++ Node.serialsBelowAll nodes,next ≤ s ∧ s < later
  | [],next => ⟨[],next,rfl,rfl,Nat.le_refl _,.nil,fun _ member => nomatch member⟩
  | o :: rest,next => by
      obtain ⟨n,middle,first,outline,least,less,own,bounds⟩ := make_serials o next
      obtain ⟨nodes,later,made,outlines,grown,distinct,others⟩ := makeAll_serials rest middle
      have shuffled : ((n :: nodes).map Node.serial ++ Node.serialsBelowAll (n :: nodes)).Perm
          ((n.serial :: n.serialsBelow) ++ (nodes.map Node.serial ++ Node.serialsBelowAll nodes)) := by
        rw [List.map_cons,Node.serialsBelowAll,List.cons_append,List.cons_append,List.perm_cons,
          ← List.append_assoc,← List.append_assoc]
        exact List.perm_append_comm.append_right _
      have early : ∀ s ∈ n.serial :: n.serialsBelow,next ≤ s ∧ s < middle := by
        intro s member
        rcases List.mem_cons.mp member with rfl | inside
        · exact ⟨least,less⟩
        · have bound := bounds s inside
          omega
      refine ⟨n :: nodes,later,?_,by rw [List.map_cons,outline,outlines],by omega,?_,?_⟩
      · rw [makeAll,StateT.run_bind,first]
        show StateT.run (makeAll rest >>= fun rest => pure (n :: rest)) middle = _
        rw [StateT.run_bind,made]
        rfl
      · rw [shuffled.nodup_iff,List.nodup_append]
        refine ⟨List.nodup_cons.mpr ⟨fun member => ?_,own⟩,distinct,?_⟩
        · exact Nat.lt_irrefl _ (bounds _ member).2
        · intro s member t inside same
          have before := early s member
          have after := others t inside
          omega
      · intro s member
        rcases List.mem_append.mp (shuffled.mem_iff.mp member) with inside | inside
        · have bound := early s inside
          omega
        · have bound := others s inside
          omega
end

theorem make_tree (o : Outline) (next : Nat) : ∃ tree later,
    (o.make.run next) = (tree.root,later) ∧ Tree.ofRoot tree.root = .ok tree ∧ tree.root.outline = o := by
  obtain ⟨n,later,made,outline,_,_,distinct,_⟩ := make_serials o next
  exact ⟨⟨n,Node.unrepeated distinct⟩,later,made,Tree.ofRoot_own _,outline⟩

end Outline
end SharedTree
