import SharedTree.Proofs.Value.Table
import SharedTree.Value.Basic

namespace SharedTree.Value

def Sorted (fields : List (String × α)) : Prop := fields.Pairwise fun a b => a.1 < b.1

theorem insertField_perm {fields : List (String × Value)} (absent : name ∉ fields.map (·.1)) :
    (insertField name value fields).Perm ((name,value) :: fields) := by
  induction fields with
  | nil => exact .refl _
  | cons field rest ih =>
      rw [List.map_cons,List.mem_cons,not_or] at absent
      obtain ⟨other,later⟩ := absent
      rw [insertField]
      split
      · exact .refl _
      · exact (List.Perm.cons _ (ih later)).trans (.swap _ _ _)

theorem insertField_sorted {fields : List (String × Value)} (sorted : Sorted fields) (absent : name ∉ fields.map (·.1)) :
    Sorted (insertField name value fields) := by
  induction fields with
  | nil => exact List.pairwise_singleton _ _
  | cons field rest ih =>
      rw [List.map_cons,List.mem_cons,not_or] at absent
      obtain ⟨other,later⟩ := absent
      obtain ⟨first,others⟩ := List.pairwise_cons.mp sorted
      rw [insertField]
      split
      · rename_i less
        refine List.pairwise_cons.mpr ⟨?_,sorted⟩
        intro entry member
        rcases List.mem_cons.mp member with rfl | inside
        · exact less
        · exact String.lt_trans less (first entry inside)
      · rename_i least
        have greater : field.1 < name := Std.lt_of_le_of_ne (String.not_lt.mp least) (Ne.symm other)
        refine List.pairwise_cons.mpr ⟨?_,ih others later⟩
        intro entry member
        rcases List.mem_cons.mp ((insertField_perm later).mem_iff.mp member) with rfl | inside
        · exact greater
        · exact first entry inside

theorem fold_insertField {fields sorted : List (String × Value)} (ordered : Sorted sorted)
    (distinct : ((fields ++ sorted).map (·.1)).Nodup) :
    Sorted (fields.foldl (fun sorted field => insertField field.1 field.2 sorted) sorted) ∧
      (fields.foldl (fun sorted field => insertField field.1 field.2 sorted) sorted).Perm (fields ++ sorted) := by
  induction fields generalizing sorted with
  | nil => exact ⟨ordered,.refl _⟩
  | cons field rest ih =>
      rw [List.cons_append,List.map_cons,List.nodup_cons,List.map_append] at distinct
      have absent : field.1 ∉ sorted.map (·.1) := fun present => distinct.1 (List.mem_append_right _ present)
      have inserted : (insertField field.1 field.2 sorted).Perm (field :: sorted) := insertField_perm absent
      have moved : (rest ++ insertField field.1 field.2 sorted).Perm (field :: rest ++ sorted) :=
        (inserted.append_left rest).trans List.perm_middle
      obtain ⟨still,perm⟩ := ih (insertField_sorted ordered absent) ((moved.map _).nodup_iff.mpr (by
        rw [List.cons_append,List.map_cons,List.nodup_cons,List.map_append]
        exact distinct))
      exact ⟨still,perm.trans moved⟩

theorem ofFields_sorted {fields : List (String × Value)} (distinct : (fields.map (·.1)).Nodup) :
    ∃ sorted,ofFields fields = .object sorted ∧ Sorted sorted ∧ sorted.Perm fields := by
  have empty : Sorted ([] : List (String × Value)) := .nil
  obtain ⟨ordered,perm⟩ := fold_insertField empty (by rwa [List.append_nil])
  rw [List.append_nil] at perm
  exact ⟨_,rfl,ordered,perm⟩

end SharedTree.Value
