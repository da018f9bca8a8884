import Mathlib.Data.List.Nodup
import Mathlib.Data.List.Perm.Subperm
import SharedTree.Proofs.Mapping.Key

namespace SharedTree
namespace Mapping

def childKey (parent name : String) (index : Nat) : String :=
  parent ++ "." ++ String.ofList (Key.component name.toList index)

theorem childKey_toList (parent name : String) (index : Nat) :
    (childKey parent name index).toList = parent.toList ++ '.' :: Key.component name.toList index := by
  simp [childKey]

theorem below?_childKey (parent name : String) (index : Nat) :
    Key.below? parent (childKey parent name index) = some (Key.component name.toList index) := by
  simp [Key.below?,childKey_toList]

theorem eq_of_below? (found : Key.below? parent key = some component) :
    key.toList = parent.toList ++ '.' :: component := by
  unfold Key.below? at found
  split at found
  · rename_i extends_
    obtain ⟨tail,spelled⟩ := List.isPrefixOf_iff_prefix.mp extends_
    rw [← spelled,List.drop_left] at found
    split at found
    · cases found
      rw [← spelled]
    · cases found
  · cases found

-- The siblings that a list of names makes: each is numbered by the earlier ones of its name.
def rowFrom (parent : String) (earlier : List String) : List String → List Sibling
  | [] => []
  | name :: rest =>
    ⟨childKey parent name (earlier.count name),name,earlier.count name⟩ :: rowFrom parent (name :: earlier) rest

def row (parent : String) (names : List String) : List Sibling := rowFrom parent [] names

def Named (parent : String) (s : Sibling) : Prop := s.key = childKey parent s.name s.index

theorem rowFrom_names (parent : String) (earlier names : List String) :
    (rowFrom parent earlier names).map Sibling.name = names := by
  induction names generalizing earlier with
  | nil => rfl
  | cons name names ih => simp [rowFrom,ih]

theorem rowFrom_named (member : s ∈ rowFrom parent earlier names) : Named parent s := by
  induction names generalizing earlier with
  | nil => cases member
  | cons name names ih =>
      rcases List.mem_cons.mp member with rfl | later
      · rfl
      · exact ih later

theorem rowFrom_index (member : s ∈ rowFrom parent earlier names) :
    earlier.count s.name ≤ s.index ∧ s.index < earlier.count s.name + names.length := by
  induction names generalizing earlier with
  | nil => cases member
  | cons name names ih =>
      rcases List.mem_cons.mp member with rfl | later
      · simp
      · have bounds := ih later
        rw [List.count_cons] at bounds
        rw [List.length_cons]
        split at bounds <;> omega

theorem rowFrom_ordered (parent : String) (earlier names : List String) :
    (rowFrom parent earlier names).Pairwise fun a b => a.name = b.name → a.index < b.index := by
  induction names generalizing earlier with
  | nil => exact .nil
  | cons name names ih =>
      refine .cons ?_ (ih (name :: earlier))
      intro s later same
      have bounds := (rowFrom_index later).1
      simp only at same
      rw [← same,List.count_cons_self] at bounds
      simp only
      omega

theorem rowFrom_group (parent : String) (earlier names : List String) (name : String) :
    ((rowFrom parent earlier names).filter (·.name == name)).map Sibling.index =
      List.range' (earlier.count name) (names.count name) := by
  induction names generalizing earlier with
  | nil => rfl
  | cons other names ih =>
      rw [rowFrom,List.filter_cons]
      by_cases same : other = name
      · subst same
        simp only [beq_self_eq_true,↓reduceIte,List.map_cons]
        rw [ih,List.count_cons_self,List.count_cons_self,List.range'_succ]
      · have different : (other == name) = false := by simpa using same
        simp only [different,Bool.false_eq_true,↓reduceIte]
        rw [ih,List.count_cons_of_ne same,List.count_cons_of_ne same]

theorem row_names (parent : String) (names : List String) : (row parent names).map Sibling.name = names :=
  rowFrom_names parent [] names

theorem row_length (parent : String) (names : List String) : (row parent names).length = names.length := by
  rw [← List.length_map Sibling.name,row_names]

theorem row_nodup (parent : String) (names : List String) : (row parent names).Nodup := by
  refine (rowFrom_ordered parent [] names).imp ?_
  rintro a _ less rfl
  exact Nat.lt_irrefl _ (less rfl)

theorem siblings_sound (read : siblings parent keys = .ok found) :
    found.map Sibling.key = keys ∧ ∀ s ∈ found,Named parent s := by
  induction keys generalizing found with
  | nil =>
      cases read
      simp
  | cons key keys ih =>
      unfold siblings at read
      split at read
      · cases read
      · rename_i component below
        split at read
        · cases read
        · rename_i name index spelled
          split at read
          · cases read
          · rename_i others rest
            cases read
            obtain ⟨same,named⟩ := ih rest
            refine ⟨by simp [same],?_⟩
            intro s member
            rcases List.mem_cons.mp member with rfl | later
            · apply String.toList_inj.mp
              rw [childKey_toList,eq_of_below? below,Key.component_of_read spelled,String.toList_ofList]
            · exact named s later

theorem siblings_read {found : List Sibling} (named : ∀ s ∈ found,Named parent s ∧ s.index < twoTo 64) :
    siblings parent (found.map Sibling.key) = .ok found := by
  induction found with
  | nil => rfl
  | cons s found ih =>
      obtain ⟨key,name,index⟩ := s
      obtain ⟨spelled,small⟩ := named _ (.head _)
      have rest := ih fun other member => named other (.tail _ member)
      simp only [Named] at spelled small
      subst spelled
      simp [siblings,below?_childKey,Key.read_component name.toList small,rest]

theorem firstGap?_none {group : List Sibling} :
    firstGap? group = none ↔ group.map Sibling.index = List.range group.length := by
  unfold firstGap?
  rw [Option.map_eq_none_iff,List.find?_eq_none]
  constructor
  · intro exact_
    apply List.ext_getElem (by simp)
    intro place left right
    have inside : place < group.length := by simpa using left
    have here := exact_ (group[place],place) (List.mk_mem_zipIdx_iff_getElem?.mpr (List.getElem?_eq_getElem inside))
    simpa using here
  · intro numbered entry member
    obtain ⟨s,place⟩ := entry
    have here := List.mk_mem_zipIdx_iff_getElem?.mp member
    obtain ⟨inside,rfl⟩ := List.getElem?_eq_some_iff.mp here
    have same : (group.map Sibling.index)[place]? = some place := by
      rw [numbered,List.getElem?_range inside]
    simp [inside] at same
    simp [same]

theorem gapError?_none {found : List Sibling} :
    gapError? found = none ↔ ∀ name ∈ found.map Sibling.name,firstGap? (numbered found name) = none := by
  rw [gapError?,List.head?_eq_none_iff,List.filterMap_eq_nil_iff]
  constructor
  · intro gapless name member
    simpa using gapless name (List.mem_eraseDups.mpr member)
  · intro gapless name member
    simpa using gapless name (List.mem_eraseDups.mp member)

theorem numbered_perm (found : List Sibling) (name : String) :
    (numbered found name).Perm (found.filter (·.name == name)) := List.mergeSort_perm _ _

theorem mem_numbered : s ∈ numbered found name ↔ s ∈ found ∧ s.name = name := by
  rw [(numbered_perm found name).mem_iff,List.mem_filter,beq_iff_eq]

theorem numbered_length (found : List Sibling) (name : String) :
    (numbered found name).length = (found.map Sibling.name).count name := by
  rw [(numbered_perm found name).length_eq,List.count_eq_length_filter,List.filter_map,List.length_map]
  rfl

theorem numbered_sorted (found : List Sibling) (name : String) :
    ((numbered found name).map Sibling.index).Pairwise (· ≤ ·) := by
  rw [List.pairwise_map]
  have sorted : (numbered found name).Pairwise fun a b => decide (a.index ≤ b.index) = true :=
    List.pairwise_mergeSort (by simp only [decide_eq_true_eq]; omega)
      (by simp only [Bool.or_eq_true,decide_eq_true_eq]; omega) _
  exact sorted.imp fun less => by simpa using less

theorem numbered_at (gapless : gapError? found = none) (inside : place < (found.map Sibling.name).count name) :
    ∃ s ∈ found,(numbered found name)[place]? = some s ∧ s.name = name ∧ s.index = place := by
  have known : name ∈ found.map Sibling.name := List.count_pos_iff.mp (Nat.zero_lt_of_lt inside)
  have indexes := firstGap?_none.mp (gapError?_none.mp gapless name known)
  rw [← numbered_length] at inside
  have here := List.getElem?_eq_getElem inside
  obtain ⟨member,same⟩ := mem_numbered.mp (List.getElem_mem inside)
  refine ⟨_,member,here,same,?_⟩
  have index : ((numbered found name).map Sibling.index)[place]? = some place := by
    rw [indexes,List.getElem?_range inside]
  simpa [inside] using index

theorem placed_row (named : ∀ s ∈ found,Named parent s) (gapless : gapError? found = none) (slots : List Sibling)
    (room : ∀ name,earlier.count name + (slots.map Sibling.name).count name ≤ (found.map Sibling.name).count name) :
    placed found earlier slots = rowFrom parent earlier (slots.map Sibling.name) ∧
      ∀ s ∈ placed found earlier slots,s ∈ found := by
  induction slots generalizing earlier with
  | nil => exact ⟨rfl,fun s member => nomatch member⟩
  | cons slot slots ih =>
      have left : earlier.count slot.name < (found.map Sibling.name).count slot.name := by
        have bound := room slot.name
        rw [List.map_cons,List.count_cons_self] at bound
        omega
      have more : ∀ name,(slot.name :: earlier).count name + (slots.map Sibling.name).count name ≤
          (found.map Sibling.name).count name := by
        intro name
        have bound := room name
        rw [List.map_cons,List.count_cons] at bound
        rw [List.count_cons]
        omega
      obtain ⟨s,member,here,same,index⟩ := numbered_at gapless left
      obtain ⟨rest,inside⟩ := ih more
      have shape : s = ⟨childKey parent slot.name (earlier.count slot.name),slot.name,earlier.count slot.name⟩ := by
        have key := named s member
        cases s
        simp_all [Named]
      simp only [placed,here,Option.toList_some,List.singleton_append,List.map_cons,rowFrom,rest]
      refine ⟨by rw [shape],?_⟩
      intro other placed_
      rcases List.mem_cons.mp placed_ with rfl | later
      · exact member
      · exact inside other (by rw [rest]; exact later)

theorem row_of_gapless (named : ∀ s ∈ found,Named parent s) (gapless : gapError? found = none) :
    placed found [] found = row parent (found.map Sibling.name) ∧
      (row parent (found.map Sibling.name)).Perm found := by
  obtain ⟨same,inside⟩ : placed found [] found = row parent (found.map Sibling.name) ∧ _ :=
    placed_row named gapless found fun name => by simp
  refine ⟨same,?_⟩
  have within : row parent (found.map Sibling.name) ⊆ found := by
    intro s member
    exact inside s (by rw [same]; exact member)
  have length : found.length = (row parent (found.map Sibling.name)).length := by
    rw [row_length,List.length_map]
  exact (List.subperm_of_subset (row_nodup _ _) within).perm_of_length_le (Nat.le_of_eq length)

theorem gapless_of_row (arranged : found.Perm (row parent names)) : gapError? found = none := by
  rw [gapError?_none]
  intro name _
  rw [firstGap?_none]
  have counted : ((row parent names).filter (·.name == name)).map Sibling.index = List.range (names.count name) := by
    rw [row,rowFrom_group,List.count_nil,List.range_eq_range']
  have perm : ((numbered found name).map Sibling.index).Perm (List.range (names.count name)) := by
    rw [← counted]
    exact ((numbered_perm found name).trans (arranged.filter _)).map _
  have length : (numbered found name).length = names.count name := by
    simpa using perm.length_eq
  rw [length]
  exact perm.eq_of_pairwise (fun a b _ _ => Nat.le_antisymm) (numbered_sorted found name)
    ((List.pairwise_lt_range).imp Nat.le_of_lt)

theorem ordered_sound (accepted : ordered parent keys = .ok children) :
    ∃ found,siblings parent keys = .ok found ∧ children = row parent (found.map Sibling.name) ∧ children.Perm found := by
  unfold ordered at accepted
  split at accepted
  · cases accepted
  · rename_i found read
    split at accepted
    · cases accepted
    · rename_i gapless
      cases accepted
      obtain ⟨same,perm⟩ := row_of_gapless (siblings_sound read).2 gapless
      exact ⟨found,read,same,by rw [same]; exact perm⟩

theorem ordered_complete {found : List Sibling} {names : List String} (arranged : found.Perm (row parent names))
    (small : names.length ≤ twoTo 64) :
    ordered parent (found.map Sibling.key) = .ok (row parent (found.map Sibling.name)) ∧
      (row parent (found.map Sibling.name)).Perm (row parent names) := by
  have named : ∀ s ∈ found,Named parent s ∧ s.index < twoTo 64 := by
    intro s member
    have inside := arranged.mem_iff.mp member
    have bound := (rowFrom_index inside).2
    rw [List.count_nil] at bound
    exact ⟨rowFrom_named inside,by omega⟩
  have gapless := gapless_of_row arranged
  obtain ⟨same,perm⟩ := row_of_gapless (fun s member => (named s member).1) gapless
  refine ⟨?_,perm.trans arranged⟩
  simp only [ordered,siblings_read named,gapless,same]

end Mapping
end SharedTree
