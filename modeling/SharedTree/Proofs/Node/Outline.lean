import Mathlib.Data.List.Forall2
import SharedTree.Node.Outline
import SharedTree.Proofs.Value.Table

namespace SharedTree

theorem Number.same_self (n : Number) : n.same n = true := by
  cases n with
  | int value => exact beq_self_eq_true value
  | float value => exact (Binary64.same_iff value value).mpr rfl

namespace Value

mutual
theorem same_self : (v : Value) → v.same v = true
  | .null => rfl
  | .bool b => beq_self_eq_true b
  | .number n => n.same_self
  | .string s => beq_self_eq_true s
  | .array items => sameItems_self items
  | .object fields => sameFields_self fields

theorem sameItems_self : (items : List Value) → sameItems items items = true
  | [] => rfl
  | item :: rest => Bool.and_eq_true_iff.mpr ⟨item.same_self,sameItems_self rest⟩

theorem sameFields_self : (fields : List (String × Value)) → sameFields fields fields = true
  | [] => rfl
  | (name,value) :: rest =>
      Bool.and_eq_true_iff.mpr ⟨Bool.and_eq_true_iff.mpr ⟨beq_self_eq_true name,value.same_self⟩,sameFields_self rest⟩
end

end Value

theorem Attributes.same_self (a : Attributes) : Attributes.same a a = true :=
  Table.agrees_of_perm Value.same_self (.refl _)

namespace Node

@[elab_as_elim] theorem children_induction {motive : Node → Prop}
    (step : ∀ n : Node,(∀ child ∈ n.children,motive child) → motive n) : ∀ n,motive n
  | .mk serial name attributes children => step _ fun child member =>
      have : sizeOf child < sizeOf children := List.sizeOf_lt_of_mem member
      children_induction step child

theorem size_le_sizeAll {nodes : List Node} {child : Node} (member : child ∈ nodes) : child.size ≤ sizeAll nodes := by
  induction nodes with
  | nil => cases member
  | cons n nodes ih =>
      rw [sizeAll]
      rcases List.mem_cons.mp member with rfl | later
      · omega
      · have bound := ih later
        omega

theorem size_child {n child : Node} (member : child ∈ n.children) : child.size < n.size := by
  have bound := size_le_sizeAll member
  rw [size_eq n]
  omega

theorem length_le_sizeAll (nodes : List Node) : nodes.length ≤ sizeAll nodes := by
  induction nodes with
  | nil => exact Nat.le_refl _
  | cons n nodes ih =>
      rw [sizeAll,List.length_cons,size_eq]
      omega

theorem length_names (n : Node) : (n.children.map name).length < n.size := by
  have bound := length_le_sizeAll n.children
  rw [List.length_map,size_eq]
  omega

theorem sizeAll_perm {left right : List Node} (perm : left.Perm right) : sizeAll left = sizeAll right := by
  induction perm with
  | nil => rfl
  | cons n _ ih => rw [sizeAll,sizeAll,ih]
  | swap n m nodes => simp only [sizeAll]; omega
  | trans _ _ first last => rw [first,last]

theorem outlineAll_eq (nodes : List Node) : outlineAll nodes = nodes.map outline := by
  induction nodes with
  | nil => rfl
  | cons n nodes ih => rw [outlineAll,ih,List.map_cons]

theorem outline_eq (n : Node) : n.outline = .mk n.name n.attributes (n.children.map outline) := by
  cases n
  rw [outline,outlineAll_eq]
  rfl

theorem sizeAll_outlines {nodes : List Node} (each : ∀ child ∈ nodes,child.outline.size = child.size) :
    Outline.sizeAll (nodes.map outline) = sizeAll nodes := by
  induction nodes with
  | nil => rfl
  | cons child nodes ih =>
      rw [List.map_cons,Outline.sizeAll,sizeAll,each child (.head _),ih fun node member => each node (.tail _ member)]

theorem outline_size (n : Node) : n.outline.size = n.size := by
  induction n using children_induction with
  | step n ih => rw [outline_eq,Outline.size,sizeAll_outlines ih,size_eq]

theorem outline_parts {a b : Node} (same : a.outline = b.outline) :
    a.name = b.name ∧ a.attributes = b.attributes ∧ a.children.map outline = b.children.map outline := by
  rw [outline_eq,outline_eq,Outline.mk.injEq] at same
  exact same

theorem sameAll_of_outlines {left right : List Node}
    (each : ∀ n ∈ left,∀ m : Node,n.outline = m.outline → n.same m = true)
    (outlines : left.map outline = right.map outline) : sameAll left right = true := by
  induction left generalizing right with
  | nil =>
      cases right with
      | nil => rfl
      | cons m right => cases outlines
  | cons n left ih =>
      cases right with
      | nil => cases outlines
      | cons m right =>
          obtain ⟨first,later⟩ := List.cons.inj outlines
          rw [sameAll,each n (.head _) m first,ih (fun node member => each node (.tail _ member)) later]
          rfl

theorem same_of_outline {n m : Node} (outlines : n.outline = m.outline) : n.same m = true := by
  induction n using children_induction generalizing m with
  | step n ih =>
      obtain ⟨names,attributes,children⟩ := outline_parts outlines
      have below : sameAll n.children m.children = true :=
        sameAll_of_outlines (fun child member _ => ih child member) children
      cases n
      cases m
      simp only [name_mk,attributes_mk,children_mk] at names attributes below
      simp [same,names,attributes,below,Attributes.same_self]

theorem outline_sameAll {left right : List Node} :
    Outline.sameAll (left.map outline) (right.map outline) = true ↔
      List.Forall₂ (fun c d => c.outline.same d.outline = true) left right := by
  induction left generalizing right with
  | nil => cases right <;> simp [Outline.sameAll]
  | cons c left ih =>
      cases right with
      | nil => simp [Outline.sameAll]
      | cons d right => rw [List.map_cons,List.map_cons,Outline.sameAll,Bool.and_eq_true,ih,List.forall₂_cons]

theorem outline_same {a b : Node} : a.outline.same b.outline = true ↔
    a.name = b.name ∧ Attributes.same a.attributes b.attributes = true ∧
      List.Forall₂ (fun c d => c.outline.same d.outline = true) a.children b.children := by
  rw [outline_eq a,outline_eq b,Outline.same,Bool.and_eq_true,Bool.and_eq_true,beq_iff_eq,outline_sameAll,and_assoc]

theorem outline_same_self (n : Node) : n.outline.same n.outline = true := by
  induction n using children_induction with
  | step n ih => exact outline_same.mpr ⟨rfl,Attributes.same_self _,List.forall₂_same.mpr ih⟩

theorem all_alike {first second : Node → Node → Prop} {left right : List Node}
    (each : ∀ n ∈ left,∀ m ∈ right,(first n m ↔ second n m)) :
    List.Forall₂ first left right ↔ List.Forall₂ second left right := by
  rw [List.forall₂_iff_zip,List.forall₂_iff_zip]
  refine and_congr_right fun _ => forall_congr' fun n => forall_congr' fun m => imp_congr_right fun member => ?_
  obtain ⟨inside,among⟩ := List.of_mem_zip member
  exact each n inside m among

theorem sameAll_iff {left right : List Node} :
    sameAll left right = true ↔ List.Forall₂ (fun c d => c.same d = true) left right := by
  induction left generalizing right with
  | nil => cases right <;> simp [sameAll]
  | cons c left ih =>
      cases right with
      | nil => simp [sameAll]
      | cons d right => rw [sameAll,Bool.and_eq_true,ih,List.forall₂_cons]

theorem same_iff {a b : Node} : a.same b = true ↔ a.serial = b.serial ∨
    (a.name = b.name ∧ Attributes.same a.attributes b.attributes = true ∧
      List.Forall₂ (fun c d => c.same d = true) a.children b.children) := by
  cases a
  cases b
  rw [same,Bool.or_eq_true,Bool.and_eq_true,Bool.and_eq_true,beq_iff_eq,beq_iff_eq,sameAll_iff,and_assoc]
  rfl

end Node
end SharedTree
