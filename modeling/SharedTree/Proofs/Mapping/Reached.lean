import Mathlib.Data.Set.List
import SharedTree.Proofs.Mapping.Walk

namespace SharedTree
namespace Mapping

variable {m : Mapping}

theorem childKey_injective (same : childKey parent a i = childKey parent b j) : a = b ∧ i = j := by
  have other : Within (childKey parent b j) (childKey parent a i) := by
    rw [same]
    exact within_self _
  exact within_unique (within_self _) other

-- A child whose key is that of its parent and one component; the numbers below
-- its own, which is a machine word, are those of other children.
structure WellNumbered (m : Mapping) (parent : String) (s : Sibling) : Prop where
  named : Named parent s
  small : s.index < twoTo 64
  earlier : ∀ i < s.index,m.Above (childKey parent s.name i) parent

-- The keys from the root on are spelled and numbered as they should be.
structure WellKeyed (m : Mapping) (root : String) : Prop where
  top : ∃ name,root.toList = Key.component name 0
  below : ∀ key parent,m.LeadsTo parent root → m.Above key parent → ∃ s : Sibling,s.key = key ∧ m.WellNumbered parent s

theorem perm_range {indexes : List Nat} (distinct : indexes.Nodup) (closed : ∀ i ∈ indexes,∀ j < i,j ∈ indexes) :
    indexes.Perm (List.range indexes.length) := by
  have small : indexes ⊆ List.range indexes.length := by
    intro i member
    have upTo : List.range (i + 1) ⊆ indexes := by
      intro j inside
      rcases Nat.lt_or_eq_of_le (Nat.le_of_lt_succ (List.mem_range.mp inside)) with less | rfl
      · exact closed i member j less
      · exact member
    have bound := (List.subperm_of_subset List.nodup_range upTo).length_le
    rw [List.length_range] at bound
    exact List.mem_range.mpr bound
  exact (List.subperm_of_subset distinct small).perm_of_length_le (Nat.le_of_eq List.length_range)

theorem gapless_of_closed {found : List Sibling} (named : ∀ s ∈ found,Named parent s) (distinct : (found.map Sibling.key).Nodup)
    (closed : ∀ s ∈ found,∀ i < s.index,childKey parent s.name i ∈ found.map Sibling.key) : gapError? found = none := by
  rw [gapError?_none]
  intro name _
  rw [firstGap?_none]
  have perm : ((numbered found name).map Sibling.index).Perm (List.range ((numbered found name).map Sibling.index).length) := by
    refine perm_range ?_ ?_
    · refine List.Nodup.map_on ?_ ((numbered_perm found name).nodup_iff.mpr ((distinct.of_map _).filter _))
      intro s first other second same
      obtain ⟨left,names⟩ := mem_numbered.mp first
      obtain ⟨right,again⟩ := mem_numbered.mp second
      have keys : s.key = other.key := by rw [named s left,named other right,names,again,same]
      exact List.inj_on_of_nodup_map distinct left right keys
    · intro i member j less
      obtain ⟨s,inside,rfl⟩ := List.mem_map.mp member
      obtain ⟨held,rfl⟩ := mem_numbered.mp inside
      obtain ⟨other,there,same⟩ := List.mem_map.mp (closed s held j less)
      rw [named other there] at same
      obtain ⟨names,rfl⟩ := childKey_injective same
      exact List.mem_map_of_mem (mem_numbered.mpr ⟨there,names⟩)
  rw [List.length_map] at perm
  exact perm.eq_of_pairwise (fun a b _ _ => Nat.le_antisymm) (numbered_sorted found name)
    ((List.pairwise_lt_range).imp Nat.le_of_lt)

theorem ordered_wellKeyed (keyed : m.WellKeyed root) (leads : m.LeadsTo parent root) :
    ∃ children,ordered parent (m.childKeys parent) = .ok children := by
  have spelled : m.childKeys parent ∈ Set.range (List.map fun s : Subtype (m.WellNumbered parent) => s.1.key) := by
    rw [Set.range_list_map]
    intro key member
    obtain ⟨s,same,numbered⟩ := keyed.below key parent leads (mem_childKeys.mp member)
    exact ⟨⟨s,numbered⟩,same⟩
  obtain ⟨parts,same⟩ := spelled
  have keys : (parts.map Subtype.val).map Sibling.key = m.childKeys parent := by
    rw [← same,List.map_map]
    rfl
  have facts : ∀ s ∈ parts.map Subtype.val,m.WellNumbered parent s := by
    intro s member
    obtain ⟨part,_,rfl⟩ := List.mem_map.mp member
    exact part.2
  have gapless : gapError? (parts.map Subtype.val) = none := by
    refine gapless_of_closed (fun s member => (facts s member).named) (keys ▸ listed_distinct _) ?_
    intro s member i less
    rw [keys,mem_childKeys]
    exact (facts s member).earlier i less
  have read := siblings_read fun s member => ⟨(facts s member).named,(facts s member).small⟩
  rw [keys] at read
  rw [ordered,read]
  simp only [gapless]
  exact ⟨_,rfl⟩

theorem exists_rootWalk (top : m.Top root) (name : String) :
    ∃ keys,m.Walk [⟨root,name,0⟩] keys ((build m m.size root name).map ([·])) := by
  have room : ∀ s ∈ [(⟨root,name,0⟩ : Sibling)],(m.longer s.key).length < m.size := by
    intro s member
    cases List.mem_singleton.mp member
    exact longer_root (named_of_parent top)
  obtain ⟨keys,walk⟩ := exists_walk room
  refine ⟨keys,?_⟩
  have single : buildAll m m.size [⟨root,name,0⟩] = (build m m.size root name).map ([·]) := by
    rw [buildAll,buildAll]
    cases build m m.size root name <;> rfl
  rwa [single] at walk

theorem rootWalk_leads (walk : m.Walk [⟨root,name,0⟩] keys outcome) (member : key ∈ keys) : m.LeadsTo key root := by
  obtain ⟨s,only,_,leads⟩ := walk_below walk key member
  cases List.mem_singleton.mp only
  exact leads

theorem rootWalk_exact (walk : m.Walk [⟨root,name,0⟩] keys ((build m m.size root name).map ([·])))
    (built : build m m.size root name = .ok outline) :
    keys.length = outline.size ∧ ∀ key,key ∈ keys ↔ m.LeadsTo key root := by
  have complete : (build m m.size root name).map ([·]) = .ok [outline] := by rw [built]; rfl
  obtain ⟨length,inside⟩ := walk_whole walk complete
  exact ⟨by rw [length,Outline.sizeAll,Outline.sizeAll,Nat.add_zero],
    fun key => ⟨rootWalk_leads walk,inside _ (.head _) key⟩⟩

theorem rootWalk_nodup (walk : m.Walk [⟨root,name,0⟩] keys outcome) : keys.Nodup :=
  walk_nodup walk (List.pairwise_singleton _ _)

theorem whole_exact (top : m.Top root) (built : build m m.size root name = .ok outline) :
    outline.size = m.size ↔ ∀ key ∈ m.names,m.LeadsTo key root := by
  obtain ⟨keys,walk⟩ := exists_rootWalk top name
  obtain ⟨length,visited⟩ := rootWalk_exact walk built
  have distinct := rootWalk_nodup walk
  have inside : keys ⊆ m.names := fun key member => leadsTo_named (named_of_parent top) ((visited key).mp member)
  have sizes : m.names.length = m.size := List.length_map _
  rw [← length,← sizes]
  constructor
  · intro same key member
    have perm := (List.subperm_of_subset distinct inside).perm_of_length_le (Nat.le_of_eq same.symm)
    exact (visited key).mp (perm.mem_iff.mpr member)
  · intro all
    have others : m.names ⊆ keys := fun key member => (visited key).mpr (all key member)
    exact Nat.le_antisymm (List.subperm_of_subset distinct inside).length_le
      (List.subperm_of_subset m.distinct others).length_le

theorem toTree_error : (m.toTree.run next).1 = .error error ↔ m.toOutline = .error error := by
  cases result : m.toOutline with
  | error other =>
      rw [toTree,result]
      constructor <;> intro same <;> cases same <;> rfl
  | ok outline =>
      obtain ⟨tree,later,run,_⟩ := toTree_of_outline result next
      rw [run]
      constructor <;> intro same <;> cases same

inductive Fails (m : Mapping) : TreeError → Prop where
  | rejected {error : TreeError} (rejected : Rejected m.toList error) : Fails m error
  | key (key : String) (fault : Key.Fault) : Fails m (.invalidKey key fault)
  | stray {root : String} (first : m.rootKey = .ok root) (lost : ∃ key ∈ m.names,¬ m.LeadsTo key root) :
      Fails m (.cycle (m.strayKey root))

theorem toOutline_error (failed : m.toOutline = .error error) : m.Fails error := by
  unfold toOutline at failed
  split at failed
  · rename_i first
    cases failed
    exact .rejected (rootFrom_error first)
  · rename_i root first
    have top := (rootKey_exact.mp first).2
    split at failed
    · cases failed
      exact .key _ _
    · split at failed
      · cases failed
        exact .key _ _
      · split at failed
        · rename_i broken
          cases failed
          obtain ⟨keys,walk⟩ := exists_rootWalk top _
          obtain ⟨key,fault,rfl⟩ := walk_error walk (by rw [broken]; rfl)
          exact .key key fault
        · rename_i built
          split at failed
          · rename_i fewer
            cases failed
            rw [Ne,whole_exact top built] at fewer
            exact .stray first (by simpa using fewer)
          · cases failed

theorem fails_kind (fails : m.Fails error) (name : String) :
    error ≠ .duplicateParent name ∧ error ≠ .reparentRoot name ∧ error ≠ .notInTree name := by
  cases fails with
  | rejected rejected => cases rejected <;> exact ⟨nofun,nofun,nofun⟩
  | key | stray => exact ⟨nofun,nofun,nofun⟩

theorem fails_cycle (fails : m.Fails (.cycle key)) :
    key ∈ m.names ∧ (∀ top,m.Top top → ¬ m.LeadsTo key top) ∧ (m.Scanned → ∃ before after,
      m.names = before ++ key :: after ∧ ∀ other ∈ before,∃ top,m.Top top ∧ m.LeadsTo other top) := by
  generalize same : TreeError.cycle key = error at fails
  cases fails with
  | key => cases same
  | rejected rejected =>
      cases rejected with
      | missing | several | unknown => cases same
      | own member named =>
          cases same
          have own : m.Above key key := parent_exact.mpr ⟨_,member,named⟩
          refine ⟨named_of_parent own,?_,fun scanned => absurd own (scanned.apart key)⟩
          intro top without leads
          cases leadsTo_own own leads
          exact top_not_above without own
  | stray first lost =>
      cases same
      obtain ⟨scanned,top⟩ := rootKey_exact.mp first
      obtain ⟨before,after,names,stray,earlier⟩ := strayKey_first top lost
      refine ⟨?_,?_,fun _ => ⟨before,after,names,fun other inside => ⟨_,top,earlier other inside⟩⟩⟩
      · rw [names]
        exact List.mem_append_right before (.head after)
      · intro other without leads
        cases scanned.single _ _ without top
        exact stray leads

theorem toOutline_whole (scanned : m.Scanned) (top : m.Top root) (keyed : m.WellKeyed root) :
    (∃ outline,m.toOutline = .ok outline) ↔ ∀ key ∈ m.names,m.LeadsTo key root := by
  have first := rootKey_exact.mpr ⟨scanned,top⟩
  obtain ⟨name,spelled⟩ := keyed.top
  have read := Key.read_component name (twoTo_pos 64)
  rw [← spelled] at read
  obtain ⟨keys,walk⟩ := exists_rootWalk top (String.ofList name)
  constructor
  · intro accepted
    obtain ⟨outline,whole⟩ := accepted
    obtain ⟨other,again,found,_,built,sizes⟩ := toOutline_exact.mp whole
    rw [first] at found
    cases found
    exact (whole_exact top built).mp sizes
  · intro all
    have orders : ∀ s ∈ [(⟨root,String.ofList name,0⟩ : Sibling)],∀ key,m.LeadsTo key s.key →
        ∃ children,ordered key (m.childKeys key) = .ok children := by
      intro s only key leads
      cases List.mem_singleton.mp only
      exact ordered_wellKeyed keyed leads
    obtain ⟨outlines,accepted⟩ := walk_accepted walk orders
    cases built : build m m.size root (String.ofList name) with
    | error error =>
        rw [built] at accepted
        cases accepted
    | ok outline =>
        exact ⟨outline,toOutline_exact.mpr ⟨root,name,first,read,built,(whole_exact top built).mpr all⟩⟩

theorem toTree_fails (scanned : m.Scanned) (top : m.Top root) (keyed : m.WellKeyed root) :
    (∃ error,(m.toTree.run next).1 = .error error) ↔ ∃ key ∈ m.names,¬ m.LeadsTo key root := by
  have whole := toOutline_whole scanned top keyed
  simp only [toTree_error]
  constructor
  · intro failed
    obtain ⟨error,failed⟩ := failed
    by_contra none_
    obtain ⟨outline,accepted⟩ := whole.mpr (by simpa using none_)
    rw [failed] at accepted
    cases accepted
  · intro lost
    cases result : m.toOutline with
    | error error => exact ⟨error,rfl⟩
    | ok outline =>
        obtain ⟨key,member,stray⟩ := lost
        exact absurd (whole.mp ⟨outline,result⟩ key member) stray

-- For every mapping: the one walk there is and what it visits, the errors that do
-- not occur, the key a cycle is reported under, and when reading fails at all.
theorem toTree_reached (m : Mapping) (next : Nat) :
    (∀ root name,m.rootKey = .ok root → Key.read root.toList = .ok (name,0) → ∃ keys,
      (∀ others outcome,m.Walk [⟨root,String.ofList name,0⟩] others outcome ↔
        others = keys ∧ outcome = (build m m.size root (String.ofList name)).map ([·])) ∧
      keys.Nodup ∧ (∀ key ∈ keys,key ∈ m.names ∧ m.LeadsTo key root) ∧
      ∀ outline,build m m.size root (String.ofList name) = .ok outline → ∀ key,key ∈ keys ↔ m.LeadsTo key root) ∧
    (∀ error,(m.toTree.run next).1 = .error error → ∀ name,
      error ≠ .duplicateParent name ∧ error ≠ .reparentRoot name ∧ error ≠ .notInTree name) ∧
    (∀ key,(m.toTree.run next).1 = .error (.cycle key) →
      key ∈ m.names ∧ (∀ top,m.Top top → ¬ m.LeadsTo key top) ∧ (m.Scanned → ∃ before after,
        m.names = before ++ key :: after ∧ ∀ other ∈ before,∃ top,m.Top top ∧ m.LeadsTo other top)) ∧
    ∀ root,m.Scanned → m.Top root → m.WellKeyed root →
      ((∃ error,(m.toTree.run next).1 = .error error) ↔ ∃ key ∈ m.names,¬ m.LeadsTo key root) := by
  refine ⟨?_,?_,?_,?_⟩
  · intro root name first _
    have top := (rootKey_exact.mp first).2
    obtain ⟨keys,walk⟩ := exists_rootWalk top (String.ofList name)
    refine ⟨keys,?_,rootWalk_nodup walk,?_,fun outline built => (rootWalk_exact walk built).2⟩
    · intro others outcome
      refine ⟨fun other => walk_unique other walk,?_⟩
      rintro ⟨rfl,rfl⟩
      exact walk
    · intro key member
      have leads := rootWalk_leads walk member
      exact ⟨leadsTo_named (named_of_parent top) leads,leads⟩
  · intro error failed
    exact fails_kind (toOutline_error (toTree_error.mp failed))
  · intro key failed
    exact fails_cycle (toOutline_error (toTree_error.mp failed))
  · exact fun root scanned top keyed => toTree_fails scanned top keyed

-- A root with a child, and two entries that name each other.
def detached : Mapping :=
  .ofList [("r",⟨none,.empty⟩),("r.a",⟨some "r",.empty⟩),("x",⟨some "y",.empty⟩),("y",⟨some "x",.empty⟩)]

theorem detached_root : detached.rootKey = .ok "r" := by decide

theorem detached_keyed : detached.WellKeyed "r" := by
  have top := (rootKey_exact.mp detached_root).2
  have lost : ∀ key ∈ ["x","y"],¬ detached.LeadsTo key "r" := by
    intro key member
    rw [← reaches_iff top]
    revert key
    decide
  refine ⟨⟨['r'],by decide⟩,?_⟩
  intro key parent leads above
  have known : key ∈ ["r","r.a","x","y"] := named_of_parent above
  have same := above_bind.mpr above
  simp only [List.mem_cons,List.not_mem_nil,or_false] at known
  rcases known with rfl | rfl | rfl | rfl
  · cases same
  · cases same
    exact ⟨⟨"r.a","a",0⟩,rfl,rfl,twoTo_pos 64,nofun⟩
  · cases same
    exact absurd leads (lost _ (by simp))
  · cases same
    exact absurd leads (lost _ (by simp))

theorem detached_built : build detached detached.size "r" (String.ofList ['r']) = .ok (.mk "r" .empty [.mk "a" .empty []]) := by
  have order : ordered "r" (detached.childKeys "r") = .ok (row "r" ["a"]) :=
    (ordered_complete (.refl (row "r" ["a"])) (twoTo_pos 64)).1
  have leaf : ordered "r.a" (detached.childKeys "r.a") = .ok (row "r.a" []) :=
    (ordered_complete (.refl (row "r.a" [])) (Nat.zero_le _)).1
  refine (build_exact (n := .mk 0 "r" .empty [.mk 1 "a" .empty []]) (by decide)).mpr ⟨rfl,arranged_from ⟨rfl,order⟩ ?_⟩
  intro place member
  cases List.mem_singleton.mp member
  exact arranged_from ⟨rfl,leaf⟩ nofun

theorem toTree_detached :
    (∃ keys,detached.Walk [⟨"r",String.ofList ['r'],0⟩] keys (.ok [.mk "r" .empty [.mk "a" .empty []]]) ∧ keys.Nodup ∧
      ∀ key,key ∈ keys ↔ detached.LeadsTo key "r") ∧
    (detached.toTree.run 0).1 = .error (.cycle "x") ∧ (∀ top,detached.Top top → ¬ detached.LeadsTo "x" top) ∧
    (∃ before after,detached.names = before ++ "x" :: after ∧
      ∀ other ∈ before,∃ top,detached.Top top ∧ detached.LeadsTo other top) ∧
    ∃ key ∈ detached.names,¬ detached.LeadsTo key "r" := by
  obtain ⟨walks,_,cycles,whole⟩ := toTree_reached detached 0
  obtain ⟨scanned,top⟩ := rootKey_exact.mp detached_root
  have read : Key.read "r".toList = .ok (['r'],0) := by decide
  have failed : (detached.toTree.run 0).1 = .error (.cycle "x") := by
    rw [toTree_error,toOutline,detached_root]
    simp only [read,detached_built]
    rfl
  obtain ⟨keys,exact_,distinct,_,visited⟩ := walks "r" ['r'] detached_root read
  have walk := (exact_ keys _).mpr ⟨rfl,rfl⟩
  rw [detached_built] at walk
  obtain ⟨_,lost,first⟩ := cycles "x" failed
  exact ⟨⟨keys,walk,distinct,visited _ detached_built⟩,failed,lost,first scanned,
    (whole "r" scanned top detached_keyed).mp ⟨_,failed⟩⟩

end Mapping
end SharedTree
