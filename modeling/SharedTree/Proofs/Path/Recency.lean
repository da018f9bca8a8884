import Mathlib.Data.List.Basic
import SharedTree.Path.Recency
import SharedTree.Proofs.Value.Table

namespace SharedTree.Recency

-- The keys used most recently, each once and the latest first.
def recent (capacity : Nat) (uses : List String) : List String := uses.eraseDups.take capacity

theorem eraseDups_nodup (uses : List String) : uses.eraseDups.Nodup := by
  cases uses with
  | nil => exact .nil
  | cons key uses =>
      rw [List.eraseDups_cons,List.nodup_cons]
      exact ⟨by simp [List.mem_eraseDups],eraseDups_nodup (uses.filter fun other => !other == key)⟩
termination_by uses.length
decreasing_by exact Nat.lt_succ_of_le (List.length_filter_le _ _)

theorem eraseDups_filter (uses : List String) (keep : String → Bool) :
    (uses.filter keep).eraseDups = uses.eraseDups.filter keep := by
  cases uses with
  | nil => rfl
  | cons key uses =>
      have others := eraseDups_filter (uses.filter fun other => !other == key) keep
      cases kept : keep key with
      | true =>
          rw [List.filter_cons_of_pos kept,List.eraseDups_cons,List.eraseDups_cons,List.filter_cons_of_pos kept,← others,
            List.filter_comm]
      | false =>
          have dropped : ¬ keep key = true := by simp [kept]
          have same : (uses.filter fun other => !other == key).filter keep = uses.filter keep := by
            rw [List.filter_filter]
            refine List.filter_congr fun other _ => ?_
            by_cases equal : other = key <;> simp [equal,kept]
          rw [List.filter_cons_of_neg dropped,List.eraseDups_cons,List.filter_cons_of_neg dropped,← others,same]
termination_by uses.length
decreasing_by exact Nat.lt_succ_of_le (List.length_filter_le _ _)

theorem eraseDups_cons_filter (key : String) (uses : List String) :
    (key :: uses).eraseDups = key :: uses.eraseDups.filter (· != key) := by
  rw [List.eraseDups_cons,eraseDups_filter]
  rfl

theorem take_without {keys : List String} (distinct : keys.Nodup) (member : key ∈ keys.take (count + 1)) :
    (keys.filter (· != key)).take count = (keys.take (count + 1)).filter (· != key) := by
  induction keys generalizing count with
  | nil => simp
  | cons first keys ih =>
      obtain ⟨absent,distinct⟩ := List.nodup_cons.mp distinct
      by_cases own : first = key
      · subst own
        have others : ∀ kept : List String,(∀ other ∈ kept,other ∈ keys) → kept.filter (· != first) = kept := by
          intro kept inside
          refine List.filter_eq_self.mpr fun other among => ?_
          have apart : other ≠ first := fun same => absent (same ▸ inside other among)
          simpa using apart
        rw [List.take_succ_cons,List.filter_cons_of_neg (by simp),List.filter_cons_of_neg (by simp),
          others keys fun _ among => among,others _ fun _ among => List.mem_of_mem_take among]
      · rw [List.take_succ_cons] at member ⊢
        have later : key ∈ keys.take count := (List.mem_cons.mp member).resolve_left (Ne.symm own)
        rw [List.filter_cons_of_pos (by simpa using own),List.filter_cons_of_pos (by simpa using own)]
        cases count with
        | zero => simp at later
        | succ count => rw [List.take_succ_cons,ih distinct later]

theorem take_filter_absent {keys : List String} (absent : key ∉ keys.take count) :
    (keys.filter (· != key)).take count = keys.take count := by
  induction keys generalizing count with
  | nil => rfl
  | cons first keys ih =>
      cases count with
      | zero => rfl
      | succ count =>
          rw [List.take_succ_cons,List.mem_cons,not_or] at absent
          rw [List.filter_cons_of_pos (by simpa using Ne.symm absent.1),List.take_succ_cons,List.take_succ_cons,ih absent.2]

theorem recent_again {uses : List String} (member : key ∈ recent capacity uses) :
    recent capacity (key :: uses) = key :: (recent capacity uses).filter (· != key) := by
  cases capacity with
  | zero => simp [recent] at member
  | succ count => rw [recent,eraseDups_cons_filter,List.take_succ_cons,take_without (eraseDups_nodup uses) member,recent]

theorem recent_new {uses : List String} (room : 0 < capacity) (absent : key ∉ recent capacity uses) :
    recent capacity (key :: uses) = key :: (recent capacity uses).take (capacity - 1) := by
  obtain ⟨count,rfl⟩ := Nat.exists_eq_add_of_lt room
  have shorter : key ∉ uses.eraseDups.take (0 + count) := fun inside =>
    absent (List.mem_of_mem_take (by rwa [recent,List.take_take,Nat.min_eq_left (Nat.le_succ _)]))
  rw [recent,eraseDups_cons_filter,List.take_succ_cons,take_filter_absent shorter,recent,List.take_take]
  simp

theorem recent_length (capacity : Nat) (uses : List String) : (recent capacity uses).length ≤ capacity :=
  List.length_take_le _ _

theorem latest_documented : (latest : Recency α).Documented Latest.entries Latest.capacity where
  create_entries _ := rfl
  create_capacity _ := rfl
  get_value := by
    intro store key
    simp only [latest]
    cases store.entries.lookup key <;> rfl
  get_absent := by
    intro store key absent
    simp only [latest,absent]
    rfl
  get_entries := by
    intro store key value found
    simp only [latest,found]
    rfl
  get_capacity := by
    intro store key
    simp only [latest]
    cases store.entries.lookup key <;> rfl
  push_room := by
    intro store key value absent room
    simp only [latest,absent,if_pos room]
  push_full := by
    intro store key value absent full
    simp only [latest,absent,full,Nat.lt_irrefl,if_false]
  push_capacity := by
    intro store key value
    simp only [latest]
    cases store.entries.lookup key with
    | some _ => rfl
    | none => dsimp only; split <;> rfl
  contains_iff := by
    intro store key
    simp [latest]
  size_eq := rfl
  clear_entries := rfl
  clear_capacity := rfl

end SharedTree.Recency
