import SharedTree.Proofs.Tree.Index
import SharedTree.Tree.Survey

namespace SharedTree
namespace Node

theorem noteBelowAll_append (seen : List Nat) (left right : List Node) :
    noteBelowAll seen (left ++ right) = (noteBelowAll seen right).bind (noteBelowAll · left) := by
  induction left with
  | nil =>
      rw [List.nil_append]
      cases noteBelowAll seen right <;> rfl
  | cons n left ih =>
      rw [List.cons_append,noteBelowAll,ih]
      cases noteBelowAll seen right with
      | error child => rfl
      | ok middle => rw [Except.bind,Except.bind,noteBelowAll]

theorem noteBelowAll_singleton (seen : List Nat) (n : Node) : noteBelowAll seen [n] = noteBelow seen n := rfl

theorem noteBelow_eq (seen : List Nat) (n : Node) :
    noteBelow seen n = (note seen n.children).bind (noteBelowAll · n.children) := by
  cases n with
  | mk serial name attributes children =>
      rw [noteBelow,children_mk]
      cases note seen children <;> rfl

theorem noteBelowAll_reverse (seen : List Nat) (n : Node) (rest : List Node) :
    noteBelowAll seen (n :: rest).reverse =
      (note seen n.children).bind (noteBelowAll · (n.children.reverse ++ rest).reverse) := by
  rw [List.reverse_cons,noteBelowAll_append,noteBelowAll_singleton,noteBelow_eq,List.reverse_append,List.reverse_reverse]
  cases note seen n.children with
  | error child => rfl
  | ok middle => exact (noteBelowAll_append middle rest.reverse n.children).symm

end Node

namespace Survey

def noted (parents : List (Nat × Node)) : List Nat := parents.map Prod.fst

theorem lookup_noted (parents : List (Nat × Node)) (number : Nat) :
    (parents.lookup number).isSome = (noted parents).contains number := by
  rw [Bool.eq_iff_iff,List.contains_iff_mem,← Option.ne_none_iff_isSome,ne_eq,Table.lookup_none,not_not]
  rfl

def enrolled (parent : Node) (children : List Node) : List (Nat × Node) :=
  (children.map fun child => (child.serial,parent)).reverse

theorem enroll_note (parent : Node) (pending : List Node) (parents : List (Nat × Node)) (children : List Node) :
    (∀ child,Node.note (noted parents) children = .error child → enroll parent ⟨pending,parents⟩ children = .error child) ∧
    ∀ seen,Node.note (noted parents) children = .ok seen → seen = noted (enrolled parent children ++ parents) ∧
      enroll parent ⟨pending,parents⟩ children = .ok ⟨children.reverse ++ pending,enrolled parent children ++ parents⟩ := by
  induction children generalizing pending parents with
  | nil =>
      constructor
      · intro child same
        cases same
      · intro seen same
        cases same
        exact ⟨rfl,rfl⟩
  | cons child rest ih =>
      rw [Node.note,enroll,lookup_noted]
      split
      · constructor
        · intro first same
          cases same
          rfl
        · intro seen same
          cases same
      · obtain ⟨failed,passed⟩ := ih (child :: pending) ((child.serial,parent) :: parents)
        refine ⟨failed,?_⟩
        intro seen same
        have moved : enrolled parent rest ++ (child.serial,parent) :: parents = enrolled parent (child :: rest) ++ parents := by
          rw [enrolled,enrolled,List.map_cons,List.reverse_cons,List.append_assoc]
          rfl
        rw [List.reverse_cons,List.append_assoc,← moved]
        exact passed seen same

theorem taken_links (n : Node) (rest : List Node) (parents : List (Nat × Node)) :
    (Node.linksAll (n.children.reverse ++ rest) ++ (enrolled n n.children ++ parents)).Perm
      (Node.linksAll (n :: rest) ++ parents) := by
  have below : (Node.linksAll (n.children.reverse ++ rest)).Perm (Node.linksAll n.children ++ Node.linksAll rest) := by
    rw [Node.linksAll_eq,Node.linksAll_eq,Node.linksAll_eq,List.flatMap_append]
    exact ((List.reverse_perm n.children).flatMap_right _).append_right _
  have own : (enrolled n n.children).Perm (n.children.map fun child => (child.serial,n)) := List.reverse_perm _
  rw [Node.linksAll,Node.links_eq,← List.append_assoc,List.append_assoc (n.children.map _)]
  exact ((below.append own).trans List.perm_append_comm).append_right parents

theorem run_stopped {n child : Node} {rest : List Node} {parents : List (Nat × Node)}
    (stopped : enroll n ⟨rest,parents⟩ n.children = .error child) : run ⟨n :: rest,parents⟩ = .error child := by
  rw [run]
  split
  · rename_i other again
    cases stopped.symm.trans again
    rfl
  · rename_i later taken
    cases stopped.symm.trans taken

theorem run_taken {n : Node} {rest : List Node} {parents : List (Nat × Node)} {later : Survey}
    (taken : enroll n ⟨rest,parents⟩ n.children = .ok later) : run ⟨n :: rest,parents⟩ = later.run := by
  rw [run]
  split
  · rename_i other stopped
    cases taken.symm.trans stopped
  · rename_i other again
    cases taken.symm.trans again
    rfl

-- What is pending is noted from its end on, each node with what is below it.
theorem run_note (survey : Survey) :
    (∀ child,Node.noteBelowAll (noted survey.parents) survey.pending.reverse = .error child → survey.run = .error child) ∧
    ∀ seen,Node.noteBelowAll (noted survey.parents) survey.pending.reverse = .ok seen →
      ∃ parents,survey.run = .ok parents ∧ seen = noted parents ∧
        parents.Perm (Node.linksAll survey.pending ++ survey.parents) := by
  induction survey using run.induct with
  | case1 parents =>
      rw [run]
      constructor
      · intro child same
        cases same
      · intro seen same
        cases same
        exact ⟨parents,rfl,rfl,.refl _⟩
  | case2 n rest parents child stopped =>
      obtain ⟨failed,passed⟩ := enroll_note n rest parents n.children
      rw [Node.noteBelowAll_reverse,run_stopped stopped]
      cases first : Node.note (noted parents) n.children with
      | error other =>
          cases stopped.symm.trans (failed other first)
          constructor
          · intro last same
            cases same
            rfl
          · intro seen same
            cases same
      | ok seen => cases stopped.symm.trans (passed seen first).2
  | case3 n rest parents later taken ih =>
      obtain ⟨failed,passed⟩ := enroll_note n rest parents n.children
      rw [Node.noteBelowAll_reverse,run_taken taken]
      cases first : Node.note (noted parents) n.children with
      | error other => cases taken.symm.trans (failed other first)
      | ok middle =>
          obtain ⟨rfl,same⟩ := passed middle first
          cases taken.symm.trans same
          refine ⟨ih.1,?_⟩
          intro seen below
          obtain ⟨all,ran,keys,perm⟩ := ih.2 seen below
          exact ⟨all,ran,keys,perm.trans (taken_links n rest parents)⟩

theorem run_error {root : Node} : (start root).run = .error child ↔ root.repeated? = some child := by
  obtain ⟨failed,passed⟩ := run_note (start root)
  rw [Node.repeated?]
  cases outcome : Node.noteBelow [] root with
  | error other =>
      rw [failed other outcome,Except.error.injEq,Option.some.injEq]
  | ok seen =>
      obtain ⟨parents,ran,_,_⟩ := passed seen outcome
      rw [ran]
      constructor
      · intro same
        cases same
      · intro same
        cases same

theorem run_ok {root : Node} (unshared : root.repeated? = none) :
    ∃ parents,(start root).run = .ok parents ∧ parents.Perm root.links := by
  obtain ⟨failed,passed⟩ := run_note (start root)
  cases outcome : Node.noteBelow [] root with
  | error other =>
      rw [Node.repeated?,outcome] at unshared
      cases unshared
  | ok seen =>
      obtain ⟨parents,ran,_,perm⟩ := passed seen outcome
      refine ⟨parents,ran,?_⟩
      rwa [start,Node.linksAll,Node.linksAll,List.append_nil,List.append_nil] at perm

end Survey

namespace Node

theorem subtree_length (n : Node) : n.subtree.length = n.size := by
  have visited := congrArg List.length (Position.preorder_paths ⟨n,[]⟩)
  have nodes := congrArg List.length (Position.preorder_nodes ⟨n,[]⟩)
  rw [List.length_map] at nodes
  rw [List.length_map,List.length_map,paths_length] at visited
  exact nodes.symm.trans visited

theorem links_length (n : Node) : n.links.length + 1 = n.size := by
  have noted := n.serials_below.length_eq
  rwa [List.length_map,subtree_length,List.length_cons,← links_serials,List.length_map,eq_comm] at noted

end Node

namespace Tree

theorem ofRoot_error {root : Node} {error : TreeError} :
    ofRoot root = .error error ↔ ∃ child,(Survey.start root).run = .error child ∧ error = .duplicateParent child.name := by
  simp only [Survey.run_error]
  unfold ofRoot
  split
  · rename_i child found
    simp [found,eq_comm]
  · rename_i found
    simp [found]

theorem surveyed (tree : Tree) : ∃ parents,(Survey.start tree.root).run = .ok parents ∧
    parents.length + 1 = tree.size ∧ ∀ node,tree.parentOf? node = parents.lookup node.serial := by
  obtain ⟨parents,ran,perm⟩ := Survey.run_ok tree.unshared
  refine ⟨parents,ran,by rw [perm.length_eq,Node.links_length]; rfl,?_⟩
  intro node
  rw [parentOf?]
  cases found : parents.lookup node.serial with
  | none =>
      rw [Table.lookup_none,(perm.map Prod.fst).mem_iff] at found
      exact Table.lookup_none.mpr found
  | some parent => exact Table.lookup_of_mem tree.links_distinct (perm.mem_iff.mp (Table.mem_of_lookup found))

end Tree
end SharedTree
