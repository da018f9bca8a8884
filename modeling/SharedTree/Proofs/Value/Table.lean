import Mathlib.Data.List.Nodup
import Mathlib.Data.List.Perm.Subperm
import SharedTree.Value.Table

namespace SharedTree
namespace Table

theorem lookup_of_mem [BEq κ] [LawfulBEq κ] {entries : List (κ × α)} {key : κ} (distinct : (entries.map (·.1)).Nodup)
    (member : (key,value) ∈ entries) : entries.lookup key = some value := by
  induction entries with
  | nil => cases member
  | cons entry rest ih =>
      obtain ⟨name,held⟩ := entry
      obtain ⟨absent,others⟩ := List.nodup_cons.mp distinct
      rcases List.mem_cons.mp member with same | later
      · cases same
        exact List.lookup_cons_self
      · have other : (key == name) = false := by
          rw [beq_eq_false_iff_ne]
          intro same
          exact absent (List.mem_map.mpr ⟨_,later,same⟩)
        rw [List.lookup_cons,other]
        exact ih others later

theorem mem_of_lookup [BEq κ] [LawfulBEq κ] {entries : List (κ × α)} {key : κ} (found : entries.lookup key = some value) : (key,value) ∈ entries := by
  induction entries with
  | nil => cases found
  | cons entry rest ih =>
      obtain ⟨name,held⟩ := entry
      rw [List.lookup_cons] at found
      split at found
      · rename_i same
        cases found
        rw [beq_iff_eq.mp same]
        exact .head _
      · exact .tail _ (ih found)

theorem lookup_none [BEq κ] [LawfulBEq κ] {entries : List (κ × α)} {key : κ} :
    entries.lookup key = none ↔ key ∉ entries.map (·.1) := by
  rw [List.lookup_eq_none_iff,List.mem_map]
  constructor
  · rintro other ⟨entry,member,rfl⟩
    simpa using other entry member
  · intro absent entry member
    have apart : key ≠ entry.1 := fun same => absent ⟨entry,member,same.symm⟩
    simpa using apart

theorem get?_eq_some {table : Table α} : table.get? key = some value ↔ (key,value) ∈ table.toList :=
  ⟨mem_of_lookup,lookup_of_mem table.distinct⟩

theorem get?_none {table : Table α} : table.get? key = none ↔ key ∉ table.names := lookup_none

theorem contains_iff {table : Table α} : table.contains key = true ↔ ∃ value,(key,value) ∈ table.toList := by
  rw [contains,Option.isSome_iff_exists]
  simp only [get?_eq_some]

theorem put_absent {entries : List (String × α)} (absent : key ∉ entries.map (·.1)) : put key value entries = entries ++ [(key,value)] := by
  induction entries with
  | nil => rfl
  | cons entry rest ih =>
      have other : ¬ entry.1 = key := fun same => absent (List.mem_map.mpr ⟨entry,.head _,same⟩)
      rw [put,if_neg other,ih fun later => absent (.tail _ later)]
      rfl

theorem put_perm {entries : List (String × α)} (distinct : (entries.map (·.1)).Nodup) (key : String) (value : α) :
    (put key value entries).Perm ((key,value) :: entries.filter (·.1 ≠ key)) := by
  induction entries with
  | nil => exact .refl _
  | cons entry rest ih =>
      obtain ⟨absent,others⟩ := List.nodup_cons.mp distinct
      by_cases here : entry.1 = key
      · have kept : rest.filter (·.1 ≠ key) = rest := by
          rw [List.filter_eq_self]
          intro other member
          have apart : other.1 ≠ key := fun same => absent (List.mem_map.mpr ⟨other,member,same.trans here.symm⟩)
          simp [apart]
        rw [put,if_pos here,List.filter_cons_of_neg (by simp [here]),kept]
      · rw [put,if_neg here,List.filter_cons_of_pos (by simp [here])]
        exact ((ih others).cons entry).trans (.swap _ _ _)

theorem insert_perm (table : Table α) (key : String) (value : α) :
    (table.insert key value).toList.Perm ((key,value) :: (table.erase key).toList) := put_perm table.distinct key value

theorem fold_insert (table : Table α) (entries : List (String × α))
    (distinct : ((table.toList ++ entries).map (·.1)).Nodup) :
    (entries.foldl (fun table entry => table.insert entry.1 entry.2) table).toList = table.toList ++ entries := by
  induction entries generalizing table with
  | nil => exact (List.append_nil _).symm
  | cons entry rest ih =>
      have absent : entry.1 ∉ table.toList.map (·.1) := by
        rw [List.map_append,List.map_cons] at distinct
        intro present
        exact (List.nodup_append.mp distinct).2.2 _ present _ (.head _) rfl
      have put_last : (table.insert entry.1 entry.2).toList = table.toList ++ [entry] := put_absent absent
      rw [List.foldl_cons,ih,put_last,List.append_assoc]
      · rfl
      · rw [put_last,List.append_assoc]
        exact distinct

theorem toList_ofList {entries : List (String × α)} (distinct : (entries.map (·.1)).Nodup) :
    (ofList entries).toList = entries := by
  rw [ofList,fold_insert empty entries distinct]
  rfl

theorem agrees_iff {left right : Table α} :
    agrees same left right = true ↔ left.size = right.size ∧
      ∀ entry ∈ left.toList,∃ value,right.get? entry.1 = some value ∧ same entry.2 value = true := by
  rw [agrees,Bool.and_eq_true,beq_iff_eq,List.all_eq_true]
  refine and_congr_right fun _ => forall_congr' fun entry => imp_congr_right fun _ => ?_
  cases right.get? entry.1 with
  | none => simp
  | some value => simp

theorem agrees_of_perm {left right : Table α} (reflexive : ∀ value,same value value = true)
    (perm : left.toList.Perm right.toList) : agrees same left right = true := by
  rw [agrees_iff]
  refine ⟨perm.length_eq,?_⟩
  intro entry member
  exact ⟨entry.2,get?_eq_some.mpr (perm.mem_iff.mp member),reflexive entry.2⟩

theorem perm_of_agrees {left right : Table α} (part : α → β) (shared : ∀ a b,same a b = true → part a = part b)
    (agreed : agrees same left right = true) :
    (left.toList.map fun entry => (entry.1,part entry.2)).Perm (right.toList.map fun entry => (entry.1,part entry.2)) := by
  obtain ⟨size,found⟩ := agrees_iff.mp agreed
  have distinct : (left.toList.map fun entry => (entry.1,part entry.2)).Nodup := by
    have names : ((left.toList.map fun entry => (entry.1,part entry.2)).map Prod.fst).Nodup := by
      rw [List.map_map]
      exact left.distinct
    exact List.Nodup.of_map _ names
  refine (List.subperm_of_subset distinct ?_).perm_of_length_le ?_
  · intro image member
    obtain ⟨entry,inside,rfl⟩ := List.mem_map.mp member
    obtain ⟨value,here,equal⟩ := found entry inside
    rw [shared _ _ equal]
    exact List.mem_map.mpr ⟨_,get?_eq_some.mp here,rfl⟩
  · rw [List.length_map,List.length_map]
    exact Nat.le_of_eq size.symm

theorem names_agreed {left right : Table α} (agreed : agrees same left right = true) : left.names.Perm right.names := by
  have names := (perm_of_agrees (fun _ => ()) (fun _ _ _ => rfl) agreed).map Prod.fst
  rwa [List.map_map,List.map_map] at names

theorem agrees_keys {left right : Table α} : agrees same left right = true ↔
    ∀ key,Option.Rel (fun v w => same v w = true) (left.get? key) (right.get? key) := by
  constructor
  · intro agreed key
    cases found : left.get? key with
    | none =>
        have absent : right.get? key = none :=
          get?_none.mpr fun inside => get?_none.mp found ((names_agreed agreed).mem_iff.mpr inside)
        rw [absent]
        exact .none
    | some value =>
        obtain ⟨other,there,equal⟩ := (agrees_iff.mp agreed).2 (key,value) (get?_eq_some.mp found)
        rw [there]
        exact .some equal
  · intro each
    have names : left.names.Perm right.names := by
      refine (List.perm_ext_iff_of_nodup left.distinct right.distinct).mpr fun key => not_iff_not.mp ?_
      have both := each key
      refine get?_none.symm.trans (.trans ?_ get?_none)
      generalize left.get? key = found at both
      generalize right.get? key = there at both
      cases both <;> simp
    refine agrees_iff.mpr ⟨?_,fun entry member => ?_⟩
    · have length := names.length_eq
      rwa [Table.names,Table.names,List.length_map,List.length_map] at length
    · have both := each entry.1
      rw [get?_eq_some.mpr member] at both
      cases there : right.get? entry.1 with
      | none =>
          rw [there] at both
          cases both
      | some value =>
          rw [there] at both
          cases both with
          | some equal => exact ⟨value,rfl,equal⟩

end Table
end SharedTree
