import SharedTree.Proofs.Mapping.Parents

namespace SharedTree
namespace Mapping

variable {m : Mapping}

theorem ordered_child (order : ordered key (m.childKeys key) = .ok children) (member : s ∈ children) :
    Named key s ∧ m.Above s.key key := by
  obtain ⟨found,read,_,perm⟩ := ordered_sound order
  obtain ⟨keys,named⟩ := siblings_sound read
  have inside := perm.mem_iff.mp member
  refine ⟨named s inside,mem_childKeys.mp ?_⟩
  rw [← keys]
  exact List.mem_map_of_mem inside

theorem ordered_all (order : ordered key (m.childKeys key) = .ok children) (above : m.Above child key) :
    ∃ s ∈ children,s.key = child := by
  obtain ⟨found,read,_,perm⟩ := ordered_sound order
  have listed := mem_childKeys.mpr above
  rw [← (siblings_sound read).1] at listed
  obtain ⟨s,inside,same⟩ := List.mem_map.mp listed
  exact ⟨s,perm.mem_iff.mpr inside,same⟩

theorem ordered_apart (order : ordered key keys = .ok children) : Apart children := by
  obtain ⟨found,_,same,_⟩ := ordered_sound order
  rw [same]
  exact row_apart key _

theorem siblings_error (failed : siblings parent keys = .error error) : ∃ key fault,error = .invalidKey key fault := by
  induction keys with
  | nil => cases failed
  | cons key keys ih =>
      unfold siblings at failed
      split at failed
      · cases failed
        exact ⟨_,_,rfl⟩
      · split at failed
        · cases failed
          exact ⟨_,_,rfl⟩
        · split at failed
          · rename_i rest
            cases failed
            exact ih rest
          · cases failed

theorem ordered_error (failed : ordered parent keys = .error error) : ∃ key fault,error = .invalidKey key fault := by
  unfold ordered at failed
  split at failed
  · rename_i first read
    cases failed
    exact siblings_error read
  · split at failed
    · rename_i gap
      cases failed
      obtain ⟨rest,gaps⟩ := List.head?_eq_some_iff.mp gap
      have member : error ∈ error :: rest := .head _
      rw [← gaps] at member
      obtain ⟨name,_,first⟩ := List.mem_filterMap.mp member
      obtain ⟨s,_,same⟩ := Option.map_eq_some_iff.mp first
      exact ⟨_,_,same.symm⟩
    · cases failed

-- The walk over siblings and what stands below them: the keys it visits, in
-- order, and what it ends with. A key is visited before its children are put in order.
inductive Walk (m : Mapping) : List Sibling → List String → Except TreeError (List Outline) → Prop where
  | done : Walk m [] [] (.ok [])
  | unordered {s : Sibling} {rest : List Sibling} {error : TreeError}
      (order : ordered s.key (m.childKeys s.key) = .error error) : Walk m (s :: rest) [s.key] (.error error)
  | broken {s : Sibling} {rest children : List Sibling} {keys : List String} {error : TreeError}
      (order : ordered s.key (m.childKeys s.key) = .ok children) (down : Walk m children keys (.error error)) :
      Walk m (s :: rest) (s.key :: keys) (.error error)
  | next {s : Sibling} {rest children : List Sibling} {keys others : List String} {below : List Outline}
      {outcome : Except TreeError (List Outline)}
      (order : ordered s.key (m.childKeys s.key) = .ok children) (down : Walk m children keys (.ok below))
      (on : Walk m rest others outcome) :
      Walk m (s :: rest) (s.key :: keys ++ others) (outcome.map (Outline.mk s.name (m.attributesAt s.key) below :: ·))

-- The entries with longer keys: fewer for a child than for its parent.
def longer (m : Mapping) (key : String) : List String :=
  m.names.filter fun other => key.toList.length < other.toList.length

theorem longer_less {others : List String} (member : key ∈ others) (inside : m.longer key ⊆ others) :
    (m.longer key).length < others.length := by
  have fresh : key ∉ m.longer key := by simp [longer]
  have distinct : (key :: m.longer key).Nodup := List.nodup_cons.mpr ⟨fresh,m.distinct.sublist List.filter_sublist⟩
  exact (List.subperm_of_subset distinct (List.cons_subset.mpr ⟨member,inside⟩)).length_le

theorem longer_child {s : Sibling} (named : Named parent s) (above : m.Above s.key parent) :
    (m.longer s.key).length < (m.longer parent).length := by
  have length : parent.toList.length < s.key.toList.length := by
    rw [named,childKey_toList]
    simp
  refine longer_less (List.mem_filter.mpr ⟨named_of_parent above,by simpa using length⟩) ?_
  intro other member
  obtain ⟨inside,more⟩ := List.mem_filter.mp member
  refine List.mem_filter.mpr ⟨inside,?_⟩
  simp only [decide_eq_true_eq] at more ⊢
  omega

theorem longer_root (known : root ∈ m.names) : (m.longer root).length < m.size := by
  have bound := longer_less known (List.filter_subset_self _)
  rwa [Table.names,List.length_map] at bound

section

variable {wanted : List Sibling}

theorem buildAll_next {s : Sibling} (order : ordered s.key (m.childKeys s.key) = .ok children)
    (built : buildAll m fuel children = .ok below) : buildAll m (fuel + 1) (s :: wanted) =
      (buildAll m (fuel + 1) wanted).map (Outline.mk s.name (m.attributesAt s.key) below :: ·) := by
  rw [buildAll,build,order]
  simp only [built]
  cases buildAll m (fuel + 1) wanted <;> rfl

theorem exists_walk (room : ∀ s ∈ wanted,(m.longer s.key).length < fuel) :
    ∃ keys,m.Walk wanted keys (buildAll m fuel wanted) := by
  induction fuel generalizing wanted with
  | zero =>
      cases wanted with
      | nil =>
          rw [buildAll]
          exact ⟨[],.done⟩
      | cons s _ => exact absurd (room s (.head _)) (Nat.not_lt_zero _)
  | succ fuel deeper =>
      induction wanted with
      | nil =>
          rw [buildAll]
          exact ⟨[],.done⟩
      | cons s rest ih =>
          obtain ⟨others,on⟩ := ih fun other member => room other (.tail _ member)
          cases order : ordered s.key (m.childKeys s.key) with
          | error error =>
              rw [buildAll,build,order]
              exact ⟨[s.key],.unordered order⟩
          | ok children =>
              have smaller : ∀ child ∈ children,(m.longer child.key).length < fuel := by
                intro child member
                obtain ⟨named,above⟩ := ordered_child order member
                exact Nat.lt_of_lt_of_le (longer_child named above) (Nat.le_of_lt_succ (room s (.head _)))
              obtain ⟨keys,down⟩ := deeper smaller
              cases built : buildAll m fuel children with
              | error error =>
                  rw [built] at down
                  rw [buildAll,build,order]
                  simp only [built]
                  exact ⟨_,.broken order down⟩
              | ok below =>
                  rw [built] at down
                  rw [buildAll_next order built]
                  exact ⟨_,.next order down on⟩

theorem walk_stopped {s : Sibling} (order : ordered s.key (m.childKeys s.key) = .error error)
    (walk : m.Walk (s :: wanted) keys outcome) : keys = [s.key] ∧ outcome = .error error := by
  cases walk with
  | unordered again =>
      rw [order] at again
      cases again
      exact ⟨rfl,rfl⟩
  | broken again | next again =>
      rw [order] at again
      cases again

theorem walk_onward {s : Sibling} (order : ordered s.key (m.childKeys s.key) = .ok children)
    (walk : m.Walk (s :: wanted) keys outcome) : ∃ lower result,m.Walk children lower result ∧
      ((∃ error,result = .error error ∧ keys = s.key :: lower ∧ outcome = .error error) ∨
        ∃ below others later,result = .ok below ∧ m.Walk wanted others later ∧ keys = s.key :: lower ++ others ∧
          outcome = later.map (Outline.mk s.name (m.attributesAt s.key) below :: ·)) := by
  cases walk with
  | unordered again =>
      rw [order] at again
      cases again
  | broken again down =>
      rw [order] at again
      cases again
      exact ⟨_,_,down,.inl ⟨_,rfl,rfl,rfl⟩⟩
  | next again down on =>
      rw [order] at again
      cases again
      exact ⟨_,_,down,.inr ⟨_,_,_,rfl,on,rfl,rfl⟩⟩

theorem walk_unique (first : m.Walk wanted keys outcome) (second : m.Walk wanted others result) :
    keys = others ∧ outcome = result := by
  induction first generalizing others result with
  | done =>
      cases second
      exact ⟨rfl,rfl⟩
  | unordered order =>
      obtain ⟨rfl,rfl⟩ := walk_stopped order second
      exact ⟨rfl,rfl⟩
  | broken order _ ih =>
      obtain ⟨lower,ended,down,ends⟩ := walk_onward order second
      obtain ⟨rfl,rfl⟩ := ih down
      rcases ends with ⟨error,same,rfl,rfl⟩ | ⟨_,_,_,same,_⟩
      · cases same
        exact ⟨rfl,rfl⟩
      · cases same
  | next order _ _ below beside =>
      obtain ⟨lower,ended,down,ends⟩ := walk_onward order second
      obtain ⟨rfl,rfl⟩ := below down
      rcases ends with ⟨error,same,_⟩ | ⟨_,_,later,same,on,rfl,rfl⟩
      · cases same
      · cases same
        obtain ⟨rfl,rfl⟩ := beside on
        exact ⟨rfl,rfl⟩

def Below (m : Mapping) (wanted : List Sibling) (keys : List String) : Prop :=
  ∀ key ∈ keys,∃ s ∈ wanted,Within s.key key ∧ m.LeadsTo key s.key

theorem below_children {s : Sibling} (order : ordered s.key (m.childKeys s.key) = .ok children) (below : Below m children keys) :
    s.key ∉ keys ∧ ∀ key ∈ s.key :: keys,Within s.key key ∧ m.LeadsTo key s.key := by
  have lower : ∀ key ∈ keys,Within s.key key ∧ m.LeadsTo key s.key ∧ key ≠ s.key := by
    intro key member
    obtain ⟨child,inside,within,leads⟩ := below key member
    obtain ⟨named,above⟩ := ordered_child order inside
    rw [named] at within
    obtain ⟨further,other⟩ := within_parent within
    exact ⟨further,.tail leads above,other⟩
  refine ⟨fun member => (lower _ member).2.2 rfl,?_⟩
  intro key member
  rcases List.mem_cons.mp member with rfl | later
  · exact ⟨within_self _,.refl⟩
  · exact ⟨(lower key later).1,(lower key later).2.1⟩

theorem walk_below (walk : m.Walk wanted keys outcome) : Below m wanted keys := by
  induction walk with
  | done => exact fun _ member => absurd member List.not_mem_nil
  | unordered =>
      intro key member
      cases List.mem_singleton.mp member
      exact ⟨_,.head _,within_self _,.refl⟩
  | broken order _ lower =>
      intro key member
      exact ⟨_,.head _,(below_children order lower).2 key member⟩
  | next order _ _ lower beside =>
      intro key member
      rcases List.mem_append.mp member with first | last
      · exact ⟨_,.head _,(below_children order lower).2 key first⟩
      · obtain ⟨other,inside,facts⟩ := beside key last
        exact ⟨other,.tail _ inside,facts⟩

theorem walk_nodup (walk : m.Walk wanted keys outcome) (apart : Apart wanted) : keys.Nodup := by
  induction walk with
  | done => exact List.nodup_nil
  | unordered => exact List.nodup_singleton _
  | broken order down lower =>
      exact List.nodup_cons.mpr ⟨(below_children order (walk_below down)).1,lower (ordered_apart order)⟩
  | next order down on lower beside =>
      obtain ⟨separate,rest⟩ := List.pairwise_cons.mp apart
      obtain ⟨fresh,within⟩ := below_children order (walk_below down)
      refine List.nodup_append.mpr ⟨List.nodup_cons.mpr ⟨fresh,lower (ordered_apart order)⟩,beside rest,?_⟩
      rintro key first _ last rfl
      obtain ⟨other,inside,again,_⟩ := walk_below on key last
      exact separate other inside key (within key first).1 again

theorem walk_whole (walk : m.Walk wanted keys outcome) (complete : outcome = .ok outlines) :
    keys.length = Outline.sizeAll outlines ∧ ∀ s ∈ wanted,∀ key,m.LeadsTo key s.key → key ∈ keys := by
  induction walk generalizing outlines with
  | done =>
      cases complete
      exact ⟨rfl,fun _ member => absurd member List.not_mem_nil⟩
  | unordered | broken => cases complete
  | @next s _ _ keys others below outcome order _ _ lower beside =>
      cases outcome with
      | error => cases complete
      | ok rest =>
          cases complete
          obtain ⟨first,inside⟩ := lower rfl
          obtain ⟨last,others_⟩ := beside rfl
          refine ⟨?_,?_⟩
          · rw [List.length_append,List.length_cons,first,last,Outline.sizeAll,Outline.size,Nat.add_comm 1]
          · intro other member key leads
            rcases List.mem_cons.mp member with rfl | later
            · refine List.mem_append_left _ ?_
              rcases leadsTo_last leads with rfl | ⟨child,above,further⟩
              · exact .head _
              · obtain ⟨sibling,listed,rfl⟩ := ordered_all order above
                exact .tail _ (inside sibling listed key further)
            · exact List.mem_append_right _ (others_ other later key leads)

theorem walk_error (walk : m.Walk wanted keys outcome) (failed : outcome = .error error) :
    ∃ key fault,error = .invalidKey key fault := by
  induction walk with
  | done => cases failed
  | unordered order =>
      cases failed
      exact ordered_error order
  | broken _ _ ih => exact ih failed
  | @next _ _ _ _ _ _ outcome _ _ _ _ ih =>
      cases outcome with
      | error => exact ih failed
      | ok => cases failed

theorem walk_accepted (walk : m.Walk wanted keys outcome)
    (orders : ∀ s ∈ wanted,∀ key,m.LeadsTo key s.key → ∃ children,ordered key (m.childKeys key) = .ok children) :
    ∃ outlines,outcome = .ok outlines := by
  induction walk with
  | done => exact ⟨[],rfl⟩
  | unordered order =>
      obtain ⟨children,accepted⟩ := orders _ (.head _) _ .refl
      rw [order] at accepted
      cases accepted
  | broken order _ ih =>
      have lower := ih fun child member key leads =>
        orders _ (.head _) key (.tail leads (ordered_child order member).2)
      obtain ⟨outlines,same⟩ := lower
      cases same
  | next _ _ _ _ ih =>
      obtain ⟨rest,same⟩ := ih fun other member => orders other (.tail _ member)
      rw [same]
      exact ⟨_,rfl⟩

end

end Mapping
end SharedTree
