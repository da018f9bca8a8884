import SharedTree.Proofs.Node.Keeps
import SharedTree.Proofs.Node.Renewed
import SharedTree.Proofs.Value.Equality

namespace SharedTree
namespace Node

-- Two nodes hold the same, in depth. Their serial numbers do not matter, so the nodes
-- may come from different memories; in one memory this is `same` (`Memory.same_outline`).
def Equal (n m : Node) : Prop := n.outline.same m.outline = true

variable {n m : Node} {left middle right held nodes : List Node} {next : Nat}

theorem equal_iff : Equal n m ↔
    n.name = m.name ∧ Attributes.same n.attributes m.attributes = true ∧ List.Forall₂ Equal n.children m.children :=
  outline_same

theorem equal_self (n : Node) : Equal n n := outline_same_self n

theorem equals_turned (each : ∀ n ∈ left,∀ m,Equal n m → Equal m n) (both : List.Forall₂ Equal left right) :
    List.Forall₂ Equal right left := by
  induction both with
  | nil => exact .nil
  | cons first _ ih => exact .cons (each _ (.head _) _ first) (ih fun n member => each n (.tail _ member))

theorem equal_symm (equal : Equal n m) : Equal m n := by
  induction n using children_induction generalizing m with
  | step n ih =>
      obtain ⟨names,attributes,children⟩ := equal_iff.mp equal
      exact equal_iff.mpr ⟨names.symm,Attributes.same_symm attributes,equals_turned (fun child member _ => ih child member) children⟩

theorem equals_joined (each : ∀ n ∈ left,∀ m k,Equal n m → Equal m k → Equal n k) (first : List.Forall₂ Equal left middle)
    (second : List.Forall₂ Equal middle right) : List.Forall₂ Equal left right := by
  induction first generalizing right with
  | nil =>
      cases second
      exact .nil
  | cons one _ ih =>
      cases second with
      | cons two others => exact .cons (each _ (.head _) _ _ one two) (ih (fun n member => each n (.tail _ member)) others)

theorem equal_trans (first : Equal n m) (second : Equal m k) : Equal n k := by
  induction n using children_induction generalizing m k with
  | step n ih =>
      obtain ⟨names,attributes,children⟩ := equal_iff.mp first
      obtain ⟨later,others,below⟩ := equal_iff.mp second
      exact equal_iff.mpr ⟨names.trans later,Attributes.same_trans attributes others,
        equals_joined (fun child member _ _ => ih child member) children below⟩

theorem Memory.children_eq (memory : Memory next held) (same : identicalAll left right = true)
    (first : ∀ k ∈ left,k ∈ subtreeAll held) (second : ∀ k ∈ right,k ∈ subtreeAll held) : left = right :=
  eq_of_serials (beq_iff_eq.mp same) fun a inside b among => memory.single a (first a inside) b (second b among)

theorem Memory.alike_equal (memory : Memory next held) (first : n ∈ subtreeAll held) (second : m ∈ subtreeAll held)
    (alike : n.alike m = true) : Equal n m := by
  rw [Node.alike,Bool.or_eq_true,Bool.and_eq_true,Bool.and_eq_true] at alike
  rcases alike with itself | ⟨⟨names,attributes⟩,children⟩
  · rw [memory.single n first m second (beq_iff_eq.mp itself)]
    exact equal_self m
  · have same := memory.children_eq children (reach_children first) (reach_children second)
    refine equal_iff.mpr ⟨beq_iff_eq.mp names,attributes,?_⟩
    rw [same]
    exact List.forall₂_same.mpr fun child _ => equal_self child

theorem Memory.rebuild (memory : Memory next held) (inside : n ∈ subtreeAll held) (known : ∀ k ∈ nodes,k ∈ subtreeAll held) :
    ∃ m later,(n.rebuild nodes).run next = (m,later) ∧ m.name = n.name ∧ m.attributes = n.attributes ∧ m.children = nodes ∧
      Memory later (m :: held) := by
  have kept : Memory ((n.rebuild nodes).run next).2 (((n.rebuild nodes).run next).1 :: held) :=
    keeps_rebuild inside known next memory
  rw [rebuild_run] at kept ⊢
  split
  · rename_i same
    rw [if_pos same] at kept
    exact ⟨_,_,rfl,rfl,rfl,(memory.children_eq same known (reach_children inside)).symm,kept⟩
  · rename_i apart
    rw [if_neg apart] at kept
    exact ⟨_,_,rfl,rfl,rfl,rfl,kept⟩

end Node

namespace Node

theorem equals_at (both : List.Forall₂ Equal left right) (index : Nat) :
    left[index]? = none ∧ right[index]? = none ∨ ∃ n m,left[index]? = some n ∧ right[index]? = some m ∧ Equal n m := by
  induction both generalizing index with
  | nil => exact .inl ⟨rfl,rfl⟩
  | cons first _ ih =>
      cases index with
      | zero => exact .inr ⟨_,_,rfl,rfl,first⟩
      | succ index => exact ih index

theorem equals_erase (both : List.Forall₂ Equal left right) (index : Nat) :
    List.Forall₂ Equal (left.eraseIdx index) (right.eraseIdx index) := by
  rw [List.eraseIdx_eq_take_drop_succ,List.eraseIdx_eq_take_drop_succ]
  exact List.rel_append (List.forall₂_take index both) (List.forall₂_drop (index + 1) both)

theorem equals_set (both : List.Forall₂ Equal left right) (equal : Equal n m) (index : Nat) :
    List.Forall₂ Equal (left.set index n) (right.set index m) := by
  rw [List.set_eq_take_append_cons_drop,List.set_eq_take_append_cons_drop,both.length_eq]
  split
  · exact List.rel_append (List.forall₂_take index both) (.cons equal (List.forall₂_drop (index + 1) both))
  · exact both

theorem leaf_equal (same : Equal n m) : n.isLeaf = m.isLeaf := by
  have length := (equal_iff.mp same).2.2.length_eq
  rw [Bool.eq_iff_iff,isLeaf,isLeaf,List.isEmpty_iff_length_eq_zero,List.isEmpty_iff_length_eq_zero,length]

theorem names_equal (both : List.Forall₂ Equal left right) : left.map name = right.map name := by
  induction both with
  | nil => rfl
  | cons first _ ih => rw [List.map_cons,List.map_cons,(equal_iff.mp first).1,ih]

theorem sizes_equal (each : ∀ n ∈ left,∀ m,Equal n m → n.size = m.size) (both : List.Forall₂ Equal left right) :
    sizeAll left = sizeAll right := by
  induction both with
  | nil => rfl
  | cons first _ ih => rw [sizeAll,sizeAll,each _ (.head _) _ first,ih fun n member => each n (.tail _ member)]

theorem size_equal (same : Equal n m) : n.size = m.size := by
  induction n using children_induction generalizing m with
  | step n ih =>
      rw [size_eq,size_eq,sizes_equal (fun child member _ => ih child member) (equal_iff.mp same).2.2]

end Node

namespace Edit
open Node

variable {n m : Node}

theorem guarded_equal (edit : Edit) (same : Equal n m) : edit.guarded? n = edit.guarded? m := by
  obtain ⟨names,attributes,children⟩ := equal_iff.mp same
  cases edit with
  | only name => rw [guarded?,guarded?,names]
  | onlyLeaf => rw [guarded?,guarded?,leaf_equal same]
  | onlyAttribute key => rw [guarded?,guarded?,Attributes.same_contains attributes]
  | _ => rfl

theorem change_equal (edit : Edit) (same : Equal n m) (next start : Nat) :
    Equal ((edit.change n).run next).1 ((edit.change m).run start).1 := by
  obtain ⟨names,attributes,children⟩ := equal_iff.mp same
  have length := children.length_eq
  have leaf : ∀ (name : String) (next start : Nat),Equal (.mk next name .empty []) (.mk start name .empty []) :=
    fun name next start => equal_iff.mpr ⟨rfl,Attributes.same_self _,.nil⟩
  cases edit with
  | only | onlyLeaf | onlyAttribute => exact same
  | rename name => exact equal_iff.mpr ⟨rfl,attributes,children⟩
  | extend ending => exact equal_iff.mpr ⟨congrArg (· ++ ending) names,attributes,children⟩
  | set key value => exact equal_iff.mpr ⟨names,Attributes.same_insert attributes value.same_self key,children⟩
  | unset key => exact equal_iff.mpr ⟨names,Attributes.same_erase attributes key,children⟩
  | clearAttributes => exact equal_iff.mpr ⟨names,Attributes.same_self _,children⟩
  | push name =>
      exact equal_iff.mpr ⟨names,attributes,List.rel_append children (.cons (leaf name next start) .nil)⟩
  | duplicate index =>
      rcases equals_at children index with ⟨first,second⟩ | ⟨a,b,first,second,equal⟩
      · simp only [change,child?,first,second]
        exact same
      · simp only [change,child?,first,second]
        exact equal_iff.mpr ⟨names,attributes,List.rel_append children (.cons equal .nil)⟩
  | remove index =>
      simp only [change,removeChild?,length]
      split
      · exact equal_iff.mpr ⟨names,attributes,equals_erase children index⟩
      · exact same
  | replace index name =>
      simp only [change,replaceChild?,length]
      split
      · exact equal_iff.mpr ⟨names,attributes,equals_set children (leaf name next start) index⟩
      · exact same
  | reverse => exact equal_iff.mpr ⟨names,attributes,List.rel_reverse children⟩
  | clear => exact equal_iff.mpr ⟨names,attributes,.nil⟩
  | rebuild => exact equal_iff.mpr ⟨names,attributes,children⟩
  | size key =>
      refine equal_iff.mpr ⟨names,Attributes.same_insert attributes ?_ key,children⟩
      rw [size_equal same]
      exact Value.same_self _
  | names key =>
      refine equal_iff.mpr ⟨names,Attributes.same_insert attributes ?_ key,children⟩
      rw [names_equal children]
      exact Value.same_self _

theorem run_equal (edits : List Edit) (same : Equal n m) (next start : Nat) :
    Equal ((run edits n).run next).1 ((run edits m).run start).1 := by
  induction edits generalizing n m next start with
  | nil => exact same
  | cons edit rest ih =>
      unfold run
      rw [guarded_equal edit same]
      split
      · exact same
      · exact ih same next start
      · exact ih (edit.change_equal same next start) _ _

end Edit
end SharedTree
