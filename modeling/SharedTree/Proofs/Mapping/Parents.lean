import Mathlib.Data.List.Perm.Subperm
import Mathlib.Logic.Relation
import SharedTree.Proofs.Mapping.Reading

namespace SharedTree
namespace Mapping

variable {m : Mapping}

def Top (m : Mapping) (key : String) : Prop := (m.get? key).map (·.parent) = some none

def Above (m : Mapping) (key parent : String) : Prop := (m.get? key).map (·.parent) = some (some parent)

def LeadsTo (m : Mapping) (key goal : String) : Prop := Relation.ReflTransGen m.Above key goal

structure Scanned (m : Mapping) : Prop where
  single : ∀ a b,m.Top a → m.Top b → a = b
  apart : ∀ key,¬ m.Above key key
  known : ∀ key parent,m.Above key parent → parent ∈ m.names

theorem parent_exact : (m.get? key).map (·.parent) = some above ↔ ∃ entry,(key,entry) ∈ m.toList ∧ entry.parent = above := by
  simp only [Option.map_eq_some_iff,Table.get?_eq_some]

theorem mem_listed : key ∈ listed above m.toList ↔ (m.get? key).map (·.parent) = some above := by
  rw [parent_exact,listed]
  constructor
  · intro member
    obtain ⟨⟨_,entry⟩,inside,rfl⟩ := List.mem_map.mp member
    obtain ⟨held,named⟩ := List.mem_filter.mp inside
    exact ⟨entry,held,beq_iff_eq.mp named⟩
  · intro found
    obtain ⟨entry,held,named⟩ := found
    exact List.mem_map.mpr ⟨(key,entry),List.mem_filter.mpr ⟨held,beq_iff_eq.mpr named⟩,rfl⟩

theorem mem_childKeys : key ∈ m.childKeys parent ↔ m.Above key parent := mem_listed

theorem listed_distinct (above : Option String) : (listed above m.toList).Nodup :=
  m.distinct.sublist (List.filter_sublist.map _)

theorem mem_names : key ∈ m.names ↔ ∃ entry,(key,entry) ∈ m.toList := by
  constructor
  · intro member
    obtain ⟨⟨_,entry⟩,held,rfl⟩ := List.mem_map.mp member
    exact ⟨entry,held⟩
  · intro found
    obtain ⟨entry,held⟩ := found
    exact List.mem_map_of_mem held

theorem named_of_parent (found : (m.get? key).map (·.parent) = some above) : key ∈ m.names := by
  obtain ⟨entry,held,_⟩ := parent_exact.mp found
  exact mem_names.mpr ⟨entry,held⟩

theorem above_unique (first : m.Above key a) (second : m.Above key b) : a = b := by
  unfold Above at first second
  rw [first] at second
  exact Option.some.inj (Option.some.inj second)

theorem top_not_above (top : m.Top key) : ¬ m.Above key parent := by
  intro above
  unfold Top at top
  unfold Above at above
  rw [top] at above
  cases above

theorem leadsTo_named (known : goal ∈ m.names) (leads : m.LeadsTo key goal) : key ∈ m.names := by
  rcases Relation.ReflTransGen.cases_head leads with rfl | ⟨parent,above,_⟩
  · exact known
  · exact named_of_parent above

theorem leadsTo_last (leads : m.LeadsTo key goal) : key = goal ∨ ∃ child,m.Above child goal ∧ m.LeadsTo key child := by
  rcases Relation.ReflTransGen.cases_tail leads with rfl | ⟨child,before,above⟩
  · exact .inl rfl
  · exact .inr ⟨child,above,before⟩

theorem rootKey_exact : m.rootKey = .ok root ↔ m.Scanned ∧ m.Top root := by
  rw [rootKey,rootFrom_exact,Option.toList_none,List.nil_append]
  constructor
  · intro parts
    obtain ⟨roots,parents⟩ := parts
    have only : ∀ key,m.Top key ↔ key = root := by
      intro key
      rw [Top,← mem_listed,roots,List.mem_singleton]
    refine ⟨⟨fun a b first second => ((only a).mp first).trans ((only b).mp second).symm,?_,?_⟩,(only root).mpr rfl⟩
    · intro key above
      obtain ⟨entry,held,named⟩ := parent_exact.mp above
      exact (parents _ held key named).1 rfl
    · intro key parent above
      obtain ⟨entry,held,named⟩ := parent_exact.mp above
      exact mem_names.mpr (Table.contains_iff.mp (parents _ held parent named).2)
  · intro given
    obtain ⟨scanned,top⟩ := given
    have roots : (listed none m.toList).Perm [root] := by
      refine (List.perm_ext_iff_of_nodup (listed_distinct none) (List.nodup_singleton root)).mpr fun key => ?_
      rw [mem_listed,List.mem_singleton]
      exact ⟨fun other => scanned.single key root other top,fun same => same ▸ top⟩
    refine ⟨List.perm_singleton.mp roots,?_⟩
    intro entry held parent named
    have above : m.Above entry.1 parent := parent_exact.mpr ⟨entry.2,held,named⟩
    refine ⟨?_,Table.contains_iff.mpr (mem_names.mp (scanned.known _ _ above))⟩
    rintro rfl
    exact scanned.apart _ above

-- What the scan has against a mapping; a cycle it reports is one of a single entry.
inductive Rejected (entries : List (String × Entry)) : TreeError → Prop where
  | missing : Rejected entries .missingRoot
  | several (first second : String) : Rejected entries (.multipleRoots first second)
  | unknown (key parent : String) : Rejected entries (.unknownParent key parent)
  | own {key : String} {entry : Entry} (member : (key,entry) ∈ entries) (named : entry.parent = some key) :
      Rejected entries (.cycle key)

theorem Rejected.later (rejected : Rejected entries error) : Rejected (entry :: entries) error := by
  cases rejected with
  | missing => exact .missing
  | several first second => exact .several first second
  | unknown key parent => exact .unknown key parent
  | own member named => exact .own (.tail _ member) named

theorem rootFrom_error (failed : rootFrom m root entries = .error error) : Rejected entries error := by
  induction entries generalizing root with
  | nil =>
      cases root with
      | none =>
          cases failed
          exact .missing
      | some key => cases failed
  | cons entry rest ih =>
      obtain ⟨key,entry⟩ := entry
      unfold rootFrom at failed
      split at failed
      · split at failed
        · cases failed
          exact .several _ _
        · exact (ih failed).later
      · rename_i parent named
        split at failed
        · rename_i own
          cases failed
          exact .own (.head _) (by rw [named,own])
        · split at failed
          · exact (ih failed).later
          · cases failed
            exact .unknown _ _

theorem leadsTo_own (own : m.Above key key) (leads : m.LeadsTo key goal) : goal = key := by
  induction leads with
  | refl => rfl
  | tail _ above same =>
      rw [same] at above
      exact above_unique above own

inductive Climbs (m : Mapping) (goal : String) : Nat → String → Prop where
  | here : Climbs m goal 0 goal
  | up {key parent : String} {steps : Nat} (above : m.Above key parent) (climbs : Climbs m goal steps parent) :
      Climbs m goal (steps + 1) key

theorem leadsTo_climbs : m.LeadsTo key goal ↔ ∃ steps,m.Climbs goal steps key := by
  constructor
  · intro leads
    induction leads using Relation.ReflTransGen.head_induction_on with
    | refl => exact ⟨0,.here⟩
    | head above _ ih =>
        obtain ⟨steps,climbs⟩ := ih
        exact ⟨steps + 1,.up above climbs⟩
  · intro found
    obtain ⟨steps,climbs⟩ := found
    induction climbs with
    | here => exact .refl
    | up above _ ih => exact .head above ih

theorem climbs_unique (top : m.Top goal) (first : m.Climbs goal i key) (second : m.Climbs goal j key) : i = j := by
  induction first generalizing j with
  | here =>
      cases second with
      | here => rfl
      | up above _ => exact absurd above (top_not_above top)
  | up above _ ih =>
      cases second with
      | here => exact absurd above (top_not_above top)
      | up again climbs =>
          cases above_unique above again
          rw [ih climbs]

-- The keys on the way take different numbers of steps, so they are different entries.
theorem climbs_chain (top : m.Top goal) (climbs : m.Climbs goal steps key) : ∃ chain : List String,
    chain.length = steps + 1 ∧ chain.Nodup ∧ chain ⊆ m.names ∧ ∀ k ∈ chain,∃ i ≤ steps,m.Climbs goal i k := by
  induction climbs with
  | here =>
      refine ⟨[goal],rfl,List.nodup_singleton goal,?_,?_⟩
      · simpa using named_of_parent top
      · simpa using Climbs.here
  | @up key parent steps above climbs ih =>
      obtain ⟨chain,length,distinct,inside,counted⟩ := ih
      have fresh : key ∉ chain := by
        intro member
        obtain ⟨i,bound,again⟩ := counted key member
        have same := climbs_unique top again (.up above climbs)
        omega
      refine ⟨key :: chain,by rw [List.length_cons,length],List.nodup_cons.mpr ⟨fresh,distinct⟩,?_,?_⟩
      · exact List.cons_subset.mpr ⟨named_of_parent above,inside⟩
      · intro k member
        rcases List.mem_cons.mp member with rfl | later
        · exact ⟨steps + 1,Nat.le_refl _,.up above climbs⟩
        · obtain ⟨i,bound,again⟩ := counted k later
          exact ⟨i,Nat.le_succ_of_le bound,again⟩

theorem climbs_bound (top : m.Top goal) (climbs : m.Climbs goal steps key) : steps < m.size := by
  obtain ⟨chain,length,distinct,inside,_⟩ := climbs_chain top climbs
  have bound : chain.length ≤ m.names.length := (List.subperm_of_subset distinct inside).length_le
  rw [length,Table.names,List.length_map] at bound
  exact bound

theorem above_bind : (m.get? key).bind (·.parent) = some parent ↔ m.Above key parent := by
  rw [Above]
  cases m.get? key <;> simp

theorem reaches_exact : reaches m goal fuel key = true ↔ ∃ steps < fuel,m.Climbs goal steps key := by
  induction fuel generalizing key with
  | zero => simp [reaches]
  | succ fuel ih =>
      rw [reaches,Bool.or_eq_true,beq_iff_eq]
      constructor
      · intro found
        rcases found with rfl | later
        · exact ⟨0,Nat.zero_lt_succ fuel,.here⟩
        · split at later
          · rename_i parent above
            obtain ⟨steps,bound,climbs⟩ := ih.mp later
            exact ⟨steps + 1,Nat.succ_lt_succ bound,.up (above_bind.mp above) climbs⟩
          · cases later
      · intro found
        obtain ⟨steps,bound,climbs⟩ := found
        cases climbs with
        | here => exact .inl rfl
        | up above climbs =>
            refine .inr ?_
            rw [above_bind.mpr above]
            exact ih.mpr ⟨_,Nat.lt_of_succ_lt_succ bound,climbs⟩

theorem reaches_iff (top : m.Top root) : reaches m root (m.size + 1) key = true ↔ m.LeadsTo key root := by
  rw [reaches_exact,leadsTo_climbs]
  exact ⟨fun ⟨steps,_,climbs⟩ => ⟨steps,climbs⟩,fun ⟨steps,climbs⟩ => ⟨steps,Nat.lt_succ_of_lt (climbs_bound top climbs),climbs⟩⟩

theorem strayKey_first (top : m.Top root) (stray : ∃ key ∈ m.names,¬ m.LeadsTo key root) :
    ∃ before after,m.names = before ++ m.strayKey root :: after ∧ ¬ m.LeadsTo (m.strayKey root) root ∧
      ∀ key ∈ before,m.LeadsTo key root := by
  have found : (m.names.find? fun key => !reaches m root (m.size + 1) key).isSome = true := by
    obtain ⟨key,member,lost⟩ := stray
    rw [List.find?_isSome]
    refine ⟨key,member,?_⟩
    rw [Bool.not_eq_true',← Bool.not_eq_true,reaches_iff top]
    exact lost
  obtain ⟨key,first⟩ := Option.isSome_iff_exists.mp found
  have same : m.strayKey root = key := by rw [strayKey,first,Option.getD_some]
  obtain ⟨lost,before,after,names,earlier⟩ := List.find?_eq_some_iff_append.mp first
  rw [same]
  refine ⟨before,after,names,?_,?_⟩
  · rwa [Bool.not_eq_true',← Bool.not_eq_true,reaches_iff top] at lost
  · intro other member
    have reached := earlier other member
    rwa [Bool.not_not,reaches_iff top] at reached

end Mapping
end SharedTree
