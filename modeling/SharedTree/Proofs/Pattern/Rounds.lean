import Mathlib.Data.List.Basic
import SharedTree.Pattern.Search

namespace SharedTree

namespace Count

def Allows (count : Count) (n : Nat) : Prop := count.least ≤ n ∧ ∀ m,count.most = some m → n ≤ m

def Proper (count : Count) : Prop := ∀ m,count.most = some m → count.least ≤ m

variable {wide count middle after : Count} {n : Nat}

theorem covers_iff : wide.covers count = true ↔
    wide.least ≤ count.least ∧ ∀ m,wide.most = some m → ∃ k,count.most = some k ∧ k ≤ m := by
  unfold covers
  cases wide.most <;> cases count.most <;> simp

theorem Allows.wider (allows : count.Allows n) (covers : wide.covers count = true) : wide.Allows n := by
  obtain ⟨least,most⟩ := covers_iff.mp covers
  refine ⟨Nat.le_trans least allows.1,fun m limit => ?_⟩
  obtain ⟨k,narrow,less⟩ := most m limit
  exact Nat.le_trans (allows.2 k narrow) less

theorem covers_trans (first : wide.covers middle = true) (second : middle.covers count = true) : wide.covers count = true := by
  obtain ⟨least,most⟩ := covers_iff.mp first
  obtain ⟨least',most'⟩ := covers_iff.mp second
  refine covers_iff.mpr ⟨Nat.le_trans least least',fun m limit => ?_⟩
  obtain ⟨k,narrow,less⟩ := most m limit
  obtain ⟨l,narrower,less'⟩ := most' k narrow
  exact ⟨l,narrower,Nat.le_trans less' less⟩

theorem mem_next {skips : Bool} : after ∈ count.next skips ↔
    count.most ≠ some 0 ∧ after = ⟨if skips then 0 else count.least - 1,count.most.map (· - 1)⟩ := by
  unfold Count.next
  split
  · rename_i none_
    simp [none_]
  · rename_i some_
    simp [some_,eq_comm]

theorem next_allows {skips : Bool} : (∃ after ∈ count.next skips,after.Allows n) ↔
    (skips = true ∨ count.least ≤ n + 1) ∧ ∀ m,count.most = some m → n + 1 ≤ m := by
  simp only [mem_next,and_assoc,exists_and_left,exists_eq_left,Allows]
  cases limit : count.most with
  | none => cases skips <;> simp
  | some m => cases skips <;> simp <;> omega

theorem next_proper {skips : Bool} (proper : count.Proper) (found : after ∈ count.next skips) : after.Proper := by
  obtain ⟨_,rfl⟩ := mem_next.mp found
  intro m limit
  obtain ⟨k,limit',rfl⟩ := Option.map_eq_some_iff.mp limit
  have bound := proper k limit'
  dsimp only
  split <;> omega

theorem covers_antisymm (first : wide.covers count = true) (second : count.covers wide = true) : wide = count := by
  obtain ⟨least,most⟩ := covers_iff.mp first
  obtain ⟨least',most'⟩ := covers_iff.mp second
  have limit : wide.most = count.most := by
    cases limit : wide.most with
    | none =>
        cases limit' : count.most with
        | none => rfl
        | some k =>
            obtain ⟨l,same,_⟩ := most' k limit'
            cases limit.symm.trans same
    | some m =>
        obtain ⟨k,limit',less⟩ := most m limit
        obtain ⟨l,same,less'⟩ := most' k limit'
        cases limit.symm.trans same
        rw [limit',Nat.le_antisymm less less']
  cases wide
  cases count
  simp only [mk.injEq]
  exact ⟨Nat.le_antisymm least least',limit⟩

def wider (counts : List Count) (count : Count) : List Count :=
  counts.filter fun wide => wide != count && wide.covers count

theorem mem_wider : wide ∈ wider counts count ↔ wide ∈ counts ∧ wide ≠ count ∧ wide.covers count = true := by
  simp [wider]

theorem wider_shorter (member : wide ∈ wider counts count) : (wider counts wide).length < (wider counts count).length := by
  obtain ⟨_,other,covers⟩ := mem_wider.mp member
  have within : wider counts wide = wider (wider counts count) wide := by
    rw [wider,wider,wider,List.filter_filter]
    refine List.filter_congr fun c _ => ?_
    rw [Bool.eq_iff_iff]
    simp only [Bool.and_eq_true,bne_iff_ne]
    refine ⟨fun above => ⟨above,?_,covers_trans above.2 covers⟩,fun above => above.1⟩
    rintro rfl
    exact other (covers_antisymm covers above.2)
  rw [within]
  exact List.length_filter_lt_length_iff_exists.mpr ⟨wide,member,by simp⟩

theorem mem_widest : wide ∈ widest counts ↔ wide ∈ counts ∧ wider counts.eraseDups wide = [] := by
  simp [widest,wider,List.mem_eraseDups]

-- What is covered by others at all is covered by one of the widest, since covering
-- others strictly comes to an end.
theorem exists_widest (counts : List Count) (member : count ∈ counts) :
    ∃ wide ∈ widest counts,wide = count ∨ wide.covers count = true := by
  induction measured : (wider counts.eraseDups count).length using Nat.strongRecOn generalizing count with
  | ind size ih =>
      cases above : wider counts.eraseDups count with
      | nil => exact ⟨count,mem_widest.mpr ⟨member,above⟩,.inl rfl⟩
      | cons wide rest =>
          have found : wide ∈ wider counts.eraseDups count := above ▸ List.mem_cons_self
          obtain ⟨listed,_,covers⟩ := mem_wider.mp found
          obtain ⟨widest,kept,reaches⟩ := ih _ (measured ▸ wider_shorter found) (List.mem_eraseDups.mp listed) rfl
          refine ⟨widest,kept,.inr ?_⟩
          rcases reaches with rfl | further
          · exact covers
          · exact covers_trans further covers

theorem widest_any {holds : Count → Prop} (wider : ∀ wide count,wide.covers count = true → holds count → holds wide)
    (counts : List Count) : (∃ count ∈ widest counts,holds count) ↔ ∃ count ∈ counts,holds count := by
  constructor
  · rintro ⟨count,member,held⟩
    exact ⟨count,List.mem_eraseDups.mp (List.mem_filter.mp member).1,held⟩
  · rintro ⟨count,member,held⟩
    obtain ⟨wide,found,rfl | covers⟩ := exists_widest counts member
    · exact ⟨wide,found,held⟩
    · exact ⟨wide,found,wider wide count covers held⟩

end Count

namespace Pattern

variable {text : List Char} {p q : Pattern} {count : Count} {i j k n : Nat} {greedy : Bool}

theorem matches_empty : Matches text .empty i k ↔ k = i :=
  ⟨fun given => by cases given; rfl,fun same => same ▸ .empty⟩

theorem matches_chars : Matches text (.chars allowed) i k ↔ ∃ c,text[i]? = some c ∧ allowed.contains c = true ∧ k = i + 1 := by
  constructor
  · intro given
    cases given with
    | chars found allowed => exact ⟨_,found,allowed,rfl⟩
  · rintro ⟨c,found,allowed,rfl⟩
    exact .chars found allowed

theorem matches_assert : Matches text (.assert a) i k ↔ a.holds (boundary text i) = true ∧ k = i := by
  constructor
  · intro given
    cases given with
    | assert holds => exact ⟨holds,rfl⟩
  · rintro ⟨holds,rfl⟩
    exact .assert holds

theorem matches_seq : Matches text (.seq p q) i k ↔ ∃ j,Matches text p i j ∧ Matches text q j k := by
  constructor
  · intro given
    cases given with
    | seq first second => exact ⟨_,first,second⟩
  · rintro ⟨j,first,second⟩
    exact .seq first second

theorem matches_either : Matches text (.either p q) i k ↔ Matches text p i k ∨ Matches text q i k := by
  constructor
  · intro given
    cases given with
    | left first => exact .inl first
    | right second => exact .inr second
  · rintro (first | second)
    · exact .left first
    · exact .right second

theorem matches_loop : Matches text (.loop p count greedy) i k ↔ ∃ n,count.Allows n ∧ Repeats text p n i k := by
  constructor
  · intro given
    cases given with
    | loop rounds least most => exact ⟨_,⟨least,most⟩,rounds⟩
  · rintro ⟨n,⟨least,most⟩,rounds⟩
    exact .loop rounds least most

theorem matches_group : Matches text (.group capture p) i k ↔ Matches text p i k := by
  constructor
  · intro given
    cases given with
    | group inner => exact inner
  · exact .group

theorem repeats_succ : Repeats text p (n + 1) i k ↔ ∃ j,Matches text p i j ∧ Repeats text p n j k := by
  constructor
  · intro given
    cases given with
    | next first rest => exact ⟨_,first,rest⟩
  · rintro ⟨j,first,rest⟩
    exact .next first rest

theorem repeats_zero : Repeats text p 0 i k ↔ k = i :=
  ⟨fun given => by cases given; rfl,fun same => same ▸ .done⟩

theorem repeats_keeps (holds : Nat → Prop) (each : ∀ i k,Matches text p i k → holds i → holds k) (rounds : Repeats text p n i k)
    (held : holds i) : holds k := by
  induction n generalizing i with
  | zero =>
      cases repeats_zero.mp rounds
      exact held
  | succ n ih =>
      obtain ⟨j,first,rest⟩ := repeats_succ.mp rounds
      exact ih rest (each _ _ first held)

theorem repeats_le (each : ∀ i k,Matches text p i k → i ≤ k) (rounds : Repeats text p n i k) : i ≤ k :=
  repeats_keeps (i ≤ ·) (fun _ _ given before => Nat.le_trans before (each _ _ given)) rounds (Nat.le_refl i)

theorem matches_le (p : Pattern) (i k : Nat) (given : Matches text p i k) : i ≤ k := by
  induction p generalizing i k with
  | empty => exact Nat.le_of_eq (matches_empty.mp given).symm
  | chars allowed =>
      obtain ⟨_,_,_,rfl⟩ := matches_chars.mp given
      exact Nat.le_succ i
  | assert a => exact Nat.le_of_eq (matches_assert.mp given).2.symm
  | seq p q first second =>
      obtain ⟨j,left,right⟩ := matches_seq.mp given
      exact Nat.le_trans (first _ _ left) (second _ _ right)
  | either p q first second => exact (matches_either.mp given).elim (first _ _) (second _ _)
  | loop p count greedy each =>
      obtain ⟨n,_,rounds⟩ := matches_loop.mp given
      exact repeats_le each rounds
  | group capture p inner => exact inner _ _ (matches_group.mp given)

theorem repeats_onward (rounds : Repeats text p n i k) (onward : i < k) :
    ∃ m r j,n = m + 1 + r ∧ (m ≠ 0 → Matches text p i i) ∧ i < j ∧ Matches text p i j ∧ Repeats text p r j k := by
  induction n with
  | zero =>
      have same := repeats_zero.mp rounds
      omega
  | succ n ih =>
      obtain ⟨j,first,rest⟩ := repeats_succ.mp rounds
      rcases Nat.eq_or_lt_of_le (matches_le _ _ _ first) with rfl | taken
      · obtain ⟨m,r,j,rfl,_,further⟩ := ih rest
        exact ⟨m + 1,r,j,by omega,fun _ => first,further⟩
      · exact ⟨0,n,j,by omega,fun more => absurd rfl more,taken,first,rest⟩

theorem repeats_padded (nothing : Matches text p i i) (rounds : Repeats text p n i k) (m : Nat) : Repeats text p (m + n) i k := by
  induction m with
  | zero => rwa [Nat.zero_add]
  | succ m ih =>
      rw [Nat.succ_add]
      exact .next nothing ih

theorem loop_onward (proper : count.Proper) {skips : Bool} (own : skips = true ↔ Matches text p i i) :
    (i < k ∧ Matches text (.loop p count greedy) i k) ↔
      ∃ next ∈ count.next skips,∃ j,i < j ∧ Matches text p i j ∧ Matches text (.loop p next greedy) j k := by
  constructor
  · rintro ⟨onward,given⟩
    obtain ⟨n,⟨least,most⟩,rounds⟩ := matches_loop.mp given
    obtain ⟨m,r,j,rfl,nothing,taken,first,rest⟩ := repeats_onward rounds onward
    have made : skips = true ∨ count.least ≤ r + 1 := by
      by_cases zero_ : m = 0
      · exact .inr (by omega)
      · exact .inl (own.mpr (nothing zero_))
    obtain ⟨next,found,allows⟩ := Count.next_allows.mpr ⟨made,fun l limit => by have bound := most l limit; omega⟩
    exact ⟨next,found,j,taken,first,matches_loop.mpr ⟨r,allows,rest⟩⟩
  · rintro ⟨next,found,j,taken,first,left⟩
    obtain ⟨r,allows,rest⟩ := matches_loop.mp left
    obtain ⟨made,most⟩ := Count.next_allows.mp ⟨next,found,allows⟩
    have onward : i < k := Nat.lt_of_lt_of_le taken (repeats_le (matches_le p) rest)
    have rounds : Repeats text p (r + 1) i k := .next first rest
    refine ⟨onward,matches_loop.mpr ?_⟩
    by_cases enough : count.least ≤ r + 1
    · exact ⟨r + 1,⟨enough,most⟩,rounds⟩
    · refine ⟨count.least,⟨Nat.le_refl _,proper⟩,?_⟩
      have padded := repeats_padded (own.mp (made.resolve_right enough)) rounds (count.least - (r + 1))
      rwa [Nat.sub_add_cancel (by omega)] at padded

theorem loop_stays (proper : count.Proper) : Matches text (.loop p count greedy) i i ↔ count.least = 0 ∨ Matches text p i i := by
  rw [matches_loop]
  constructor
  · rintro ⟨n,⟨least,_⟩,rounds⟩
    cases n with
    | zero => exact .inl (by omega)
    | succ n =>
        obtain ⟨j,first,rest⟩ := repeats_succ.mp rounds
        cases Nat.le_antisymm (repeats_le (matches_le p) rest) (matches_le _ _ _ first)
        exact .inr first
  · rintro (none_ | nothing)
    · exact ⟨0,⟨by omega,fun _ _ => Nat.zero_le _⟩,.done⟩
    · exact ⟨count.least,⟨Nat.le_refl _,proper⟩,repeats_padded nothing .done count.least⟩

theorem loop_wider {wide : Count} (covers : wide.covers count = true) (given : Matches text (.loop p count greedy) i k) :
    Matches text (.loop p wide greedy) i k := by
  obtain ⟨n,allows,rounds⟩ := matches_loop.mp given
  exact matches_loop.mpr ⟨n,allows.wider covers,rounds⟩

end Pattern
end SharedTree
