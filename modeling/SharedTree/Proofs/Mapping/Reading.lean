import SharedTree.Proofs.Mapping.Build
import SharedTree.Proofs.Tree.Made

namespace SharedTree
namespace Mapping

def keyOf (root : Node) : String := String.ofList (Key.escape root.name.toList)

def link (entry : String × Entry) : String × Option String := (entry.1,entry.2.parent)

theorem rootFrom_exact {entries : List (String × Entry)} :
    rootFrom m root entries = .ok key ↔
      root.toList ++ listed none entries = [key] ∧
        ∀ entry ∈ entries,∀ parent,entry.2.parent = some parent → ¬ parent = entry.1 ∧ m.contains parent = true := by
  induction entries generalizing root with
  | nil => cases root <;> simp [rootFrom,listed]
  | cons entry rest ih =>
      obtain ⟨k,entry⟩ := entry
      cases above : entry.parent with
      | none =>
          cases root with
          | none => simp [rootFrom,above,ih,listed_cons]
          | some first => simp [rootFrom,above,listed_cons]
      | some parent =>
          by_cases own : parent = k
          · simp [rootFrom,above,own]
          · by_cases known : m.contains parent = true
            · simp [rootFrom,above,own,known,ih,listed_cons]
            · simp [rootFrom,above,own,known]

theorem listed_links (above : Option String) (entries : List (String × Entry)) :
    listed above entries = ((entries.map link).filter (·.2 == above)).map (·.1) := by
  rw [listed,List.filter_map,List.map_map]
  rfl

section Links

variable {m : Mapping} {n : Node} {key : String}
  (links : (m.toList.map link).Perm ((entriesOf key none n).map link))

include links

theorem rootKey_of_links : m.rootKey = .ok key := by
  refine rootFrom_exact.mpr ⟨?_,?_⟩
  · have roots := (links.filter (·.2 == none)).map Prod.fst
    rw [← listed_links,← listed_links,listed_top] at roots
    exact List.perm_singleton.mp roots
  · intro entry member parent above
    have held := links.mem_iff.mp (List.mem_map_of_mem member)
    obtain ⟨other,inside,same⟩ := List.mem_map.mp held
    rw [link,link,above,Prod.mk.injEq] at same
    obtain ⟨keys,parents⟩ := same
    rcases mem_entriesOf.mp inside with rfl | ⟨k,inner,place,keyed,child,rfl⟩
    · cases parents
    · cases parents
      refine ⟨?_,?_⟩
      · intro own
        rw [← keys] at own
        exact not_within_child child (own ▸ within_self _)
      · obtain ⟨above,there⟩ := keyed_entry keyed none
        obtain ⟨other,here,again⟩ := List.mem_map.mp (links.mem_iff.mpr (List.mem_map_of_mem there))
        cases congrArg Prod.fst again
        exact Table.contains_iff.mpr ⟨other.2,here⟩

theorem childKeys_of_links {inner : Node} (keyed : Keyed key n k inner) :
    (m.childKeys k).Perm ((row k (inner.children.map Node.name)).map Sibling.key) := by
  rw [← listed_root keyed,childKeys_eq,listed_links,listed_links]
  exact (links.filter _).map _

end Links

theorem toOutline_exact :
    m.toOutline = .ok outline ↔ ∃ root name,m.rootKey = .ok root ∧ Key.read root.toList = .ok (name,0) ∧
      build m m.size root (String.ofList name) = .ok outline ∧ outline.size = m.size := by
  constructor
  · intro read
    unfold toOutline at read
    split at read
    · cases read
    · rename_i root first
      split at read
      · cases read
      · rename_i name index spelled
        split at read
        · cases read
        · rename_i bare
          cases Decidable.not_not.mp bare
          split at read
          · cases read
          · rename_i outline built
            split at read
            · cases read
            · rename_i whole
              cases read
              exact ⟨root,name,first,spelled,built,Decidable.not_not.mp whole⟩
  · intro parts
    obtain ⟨root,name,first,spelled,built,whole⟩ := parts
    simp [toOutline,first,spelled,built,whole]

theorem outline_exact {n : Node} :
    m.toOutline = .ok n.outline ↔
      m.rootKey = .ok (keyOf n) ∧ ArrangedFrom m (keyOf n) n ∧ n.size = m.size := by
  rw [toOutline_exact]
  constructor
  · intro parts
    obtain ⟨root,name,first,spelled,built,whole⟩ := parts
    rw [Node.outline_size] at whole
    obtain ⟨names,arranged⟩ := (build_exact (Nat.le_of_eq whole)).mp built
    have same : keyOf n = root := by
      apply String.toList_inj.mp
      rw [keyOf,names,String.toList_ofList,String.toList_ofList]
      exact (Key.component_of_read spelled).symm
    rw [same]
    exact ⟨first,arranged,whole⟩
  · intro given
    obtain ⟨first,arranged,whole⟩ := given
    have spelled := Key.read_component n.name.toList (twoTo_pos 64)
    have written : (keyOf n).toList = Key.component n.name.toList 0 := String.toList_ofList
    refine ⟨keyOf n,n.name.toList,first,by rw [written,spelled],?_,by rw [Node.outline_size,whole]⟩
    rw [build_exact (Nat.le_of_eq whole),String.ofList_toList]
    exact ⟨rfl,arranged⟩

theorem toTree_of_outline {m : Mapping} {outline : Outline} (read : m.toOutline = .ok outline) (next : Nat) :
    ∃ tree later,m.toTree.run next = (.ok tree,later) ∧ tree.root.outline = outline := by
  obtain ⟨tree,later,made,rooted,same⟩ := outline.make_tree next
  refine ⟨tree,later,?_,same⟩
  have run : m.toTree = outline.make >>= fun root => pure (Tree.ofRoot root) := by
    rw [toTree,read]
  rw [run,StateT.run_bind,made]
  show (Tree.ofRoot tree.root,later) = _
  rw [rooted]

theorem outline_of_toTree {m : Mapping} (read : (m.toTree.run next).1 = .ok tree) : m.toOutline = .ok tree.root.outline := by
  cases result : m.toOutline with
  | error error =>
      rw [toTree,result] at read
      cases read
  | ok outline =>
      obtain ⟨other,later,run,same⟩ := toTree_of_outline result next
      rw [run] at read
      cases read
      rw [same]

theorem entries_of_outline {m : Mapping} {n : Node} (read : m.toOutline = .ok n.outline) :
    (entriesOf (keyOf n) none n).Perm m.toList := by
  obtain ⟨first,arranged,whole⟩ := outline_exact.mp read
  obtain ⟨roots,_⟩ := rootFrom_exact.mp first
  have there : keyOf n ∈ listed none m.toList := by
    rw [Option.toList_none,List.nil_append] at roots
    rw [roots]
    exact .head _
  obtain ⟨⟨key,parent,attributes⟩,member,same⟩ := List.mem_map.mp there
  obtain ⟨held,top⟩ := List.mem_filter.mp member
  have same : key = keyOf n := same
  subst same
  cases beq_iff_eq.mp top
  have own : n.attributes = attributes := by
    rw [(arranged _ n .self).attributes,attributesAt_of_mem held]
  rw [← own] at held
  have distinct : (entriesOf (keyOf n) none n).Nodup := List.Nodup.of_map _ (entriesOf_nodup (keyOf n) none n)
  have length : m.toList.length = (entriesOf (keyOf n) none n).length := by
    rw [entriesOf_length,whole]
    rfl
  exact (List.subperm_of_subset distinct (entries_held arranged held)).perm_of_length_le (Nat.le_of_eq length)

theorem outline_of_links {m : Mapping} {n : Node} (small : n.size ≤ twoTo 64) (sizes : n.size = m.size)
    (links : (m.toList.map link).Perm ((entriesOf (keyOf n) none n).map link)) :
    ∃ other : Node,m.toOutline = .ok other.outline := by
  obtain ⟨other,names,whole,arranged⟩ := exists_arranged small fun k inner keyed => childKeys_of_links links keyed
  have key : keyOf other = keyOf n := by rw [keyOf,keyOf,names]
  refine ⟨other,outline_exact.mpr ?_⟩
  rw [key]
  exact ⟨rootKey_of_links links,arranged,whole.trans sizes⟩

end Mapping
end SharedTree
