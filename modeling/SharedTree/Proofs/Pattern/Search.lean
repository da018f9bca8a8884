import SharedTree.Proofs.Pattern.Rounds

namespace SharedTree.Pattern

variable {text : List Char} {p q : Pattern} {count : Count} {t u : Threads} {b : Boundary} {i j k n : Nat} {greedy enters : Bool}

def Proper : Pattern → Prop
  | .empty | .chars _ | .assert _ => True
  | .seq p q | .either p q => p.Proper ∧ q.Proper
  | .loop p count _ => count.Proper ∧ p.Proper
  | .group _ p => p.Proper

-- From a boundary where threads stand, the boundaries up to which they complete the expression.
def Leads (text : List Char) (i : Nat) : Pattern → Threads → Nat → Prop
  | .empty,_,_ => False
  | .chars _,t,k => t.isIdle = false ∧ k = i
  | .assert _,_,_ => False
  | .seq p q,t,k => (∃ j,p.Leads text i t.first j ∧ Matches text q j k) ∨ q.Leads text i t.second k
  | .either p q,t,k => p.Leads text i t.first k ∨ q.Leads text i t.second k
  | .loop p _ greedy,t,k => ∃ round ∈ t.underWay,∃ j,p.Leads text i round.2 j ∧ Matches text (.loop p round.1 greedy) j k
  | .group _ p,t,k => p.Leads text i t k

def Tidy : Pattern → Threads → Prop
  | .empty,_ | .chars _,_ | .assert _,_ => True
  | .seq p q,t | .either p q,t => p.Tidy t.first ∧ q.Tidy t.second
  | .loop p _ _,t => ∀ round ∈ t.underWay,round.1.Proper ∧ p.Tidy round.2
  | .group _ p,t => p.Tidy t

theorem leads_le (p : Pattern) (t : Threads) (i k : Nat) (leads : p.Leads text i t k) : i ≤ k := by
  induction p generalizing t k with
  | empty => exact leads.elim
  | chars allowed => exact Nat.le_of_eq leads.2.symm
  | assert a => exact leads.elim
  | seq p q first second =>
      rcases leads with ⟨j,left,right⟩ | right
      · exact Nat.le_trans (first _ _ left) (matches_le _ _ _ right)
      · exact second _ _ right
  | either p q first second => exact leads.elim (first _ _) (second _ _)
  | loop p count greedy each =>
      obtain ⟨round,_,j,left,right⟩ := leads
      exact Nat.le_trans (each _ _ left) (matches_le _ _ _ right)
  | group capture p inner => exact inner _ _ leads

theorem leads_idle (p : Pattern) (k : Nat) : ¬ p.Leads text i .idle k := by
  induction p generalizing k with
  | empty => exact id
  | chars allowed => exact fun leads => Bool.noConfusion leads.1
  | assert a => exact id
  | seq p q first second => rintro (⟨j,left,_⟩ | right) <;> [exact first _ left; exact second _ right]
  | either p q first second => rintro (left | right) <;> [exact first _ left; exact second _ right]
  | loop p count greedy each =>
      rintro ⟨round,member,_⟩
      cases member
  | group capture p inner => exact inner k

theorem tidy_idle (p : Pattern) : p.Tidy .idle := by
  induction p with
  | empty => trivial
  | chars allowed => trivial
  | assert a => trivial
  | seq p q first second => exact ⟨first,second⟩
  | either p q first second => exact ⟨first,second⟩
  | loop p count greedy each => exact nofun
  | group capture p inner => exact inner

theorem matches_between (first : Matches text p i j) (second : Matches text q j i) : j = i :=
  Nat.le_antisymm (matches_le _ _ _ second) (matches_le _ _ _ first)

theorem skips_iff (proper : p.Proper) : p.skips (boundary text i) = true ↔ Matches text p i i := by
  induction p with
  | empty => exact ⟨fun _ => .empty,fun _ => rfl⟩
  | chars allowed =>
      rw [matches_chars]
      simp [skips]
  | assert a =>
      rw [matches_assert]
      simp [skips]
  | seq p q first second =>
      rw [skips,Bool.and_eq_true,first proper.1,second proper.2,matches_seq]
      refine ⟨fun both => ⟨i,both⟩,?_⟩
      rintro ⟨j,left,right⟩
      cases matches_between left right
      exact ⟨left,right⟩
  | either p q first second => rw [skips,Bool.or_eq_true,first proper.1,second proper.2,matches_either]
  | loop p count greedy each =>
      rw [skips,Bool.or_eq_true,beq_iff_eq,each proper.2,loop_stays proper.1]
  | group capture p inner => rw [skips,inner proper,matches_group]

theorem exits_iff (proper : p.Proper) (tidy : p.Tidy t) : p.exits (boundary text i) t = true ↔ p.Leads text i t i := by
  induction p generalizing t with
  | empty => exact ⟨nofun,False.elim⟩
  | chars allowed =>
      rw [exits,Leads]
      simp
  | assert a => exact ⟨nofun,False.elim⟩
  | seq p q first second =>
      rw [exits,Bool.or_eq_true,Bool.and_eq_true,first proper.1 tidy.1,second proper.2 tidy.2,skips_iff proper.2,Leads,or_comm]
      refine or_congr_left ⟨fun both => ⟨i,both⟩,?_⟩
      rintro ⟨j,left,right⟩
      cases Nat.le_antisymm (matches_le _ _ _ right) (leads_le _ _ _ _ left)
      exact ⟨left,right⟩
  | either p q first second => rw [exits,Bool.or_eq_true,first proper.1 tidy.1,second proper.2 tidy.2,Leads]
  | loop p count greedy each =>
      rw [exits,List.any_eq_true,Leads]
      refine exists_congr fun round => and_congr_right fun member => ?_
      obtain ⟨counted,inside⟩ := tidy round member
      have stays : Matches text (.loop p round.1 greedy) i i ↔ _ := loop_stays counted
      rw [Bool.and_eq_true,Bool.or_eq_true,beq_iff_eq,each proper.2 inside,skips_iff proper.2,← stays]
      refine ⟨fun both => ⟨i,both⟩,?_⟩
      rintro ⟨j,left,right⟩
      cases Nat.le_antisymm (matches_le _ _ _ right) (leads_le _ _ _ _ left)
      exact ⟨left,right⟩
  | group capture p inner => exact inner proper tidy

theorem isIdle_iff : t.isIdle = true ↔ t = .idle := by cases t <;> simp [Threads.isIdle]

theorem both_first (t u : Threads) : (Threads.both t u).first = t := by
  unfold Threads.both
  split
  · rename_i idle
    rw [isIdle_iff.mp (Bool.and_eq_true_iff.mp idle).1]
    rfl
  · rfl

theorem both_second (t u : Threads) : (Threads.both t u).second = u := by
  unfold Threads.both
  split
  · rename_i idle
    rw [isIdle_iff.mp (Bool.and_eq_true_iff.mp idle).2]
    rfl
  · rfl

theorem underWay_ofRounds (under : List (Count × Threads)) :
    (Threads.ofRounds under).underWay = under.filter fun round => !round.2.isIdle := by
  unfold Threads.ofRounds
  split
  · rename_i none_
    exact none_.symm
  · rfl

theorem leads_ofRounds (under : List (Count × Threads)) : (Pattern.loop p count greedy).Leads text i (.ofRounds under) k ↔
    ∃ round ∈ under,∃ j,p.Leads text i round.2 j ∧ Matches text (.loop p round.1 greedy) j k := by
  rw [Leads,underWay_ofRounds]
  constructor
  · rintro ⟨round,member,rest⟩
    exact ⟨round,(List.mem_filter.mp member).1,rest⟩
  · rintro ⟨round,member,j,leads,rest⟩
    refine ⟨round,List.mem_filter.mpr ⟨member,?_⟩,j,leads,rest⟩
    cases idle : round.2.isIdle with
    | false => rfl
    | true =>
        rw [isIdle_iff.mp idle] at leads
        exact absurd leads (leads_idle p j)

def Stepped (text : List Char) (i : Nat) (p : Pattern) (enters : Bool) (t u : Threads) : Prop :=
  ∀ k,p.Leads text (i + 1) u k ↔ i < k ∧ (enters = true ∧ Matches text p i k ∨ p.Leads text i t k)

theorem stepped_idle (p : Pattern) (away : (!enters && t.isIdle) = true) : Stepped text i p enters t .idle := by
  rw [Bool.and_eq_true,Bool.not_eq_true',isIdle_iff] at away
  obtain ⟨rfl,rfl⟩ := away
  intro k
  simp [leads_idle]

theorem seq_stepped {onward : Bool} (own : onward = true ↔ enters = true ∧ Matches text p i i ∨ p.Leads text i t.first i)
    (first : Stepped text i p enters t.first u) (second : Stepped text i q onward t.second v) :
    Stepped text i (.seq p q) enters t (.both u v) := by
  intro k
  rw [Leads,both_first,both_second,second,own,matches_seq,Leads]
  constructor
  · rintro (⟨j,left,right⟩ | ⟨taken,⟨⟨entered,here⟩ | here,right⟩ | right⟩)
    · obtain ⟨taken,reached⟩ := (first j).mp left
      have after := matches_le _ _ _ right
      refine ⟨by omega,?_⟩
      rcases reached with ⟨entered,left⟩ | left
      · exact .inl ⟨entered,j,left,right⟩
      · exact .inr (.inl ⟨j,left,right⟩)
    · exact ⟨taken,.inl ⟨entered,i,here,right⟩⟩
    · exact ⟨taken,.inr (.inl ⟨i,here,right⟩)⟩
    · exact ⟨taken,.inr (.inr right)⟩
  · rintro ⟨taken,⟨entered,j,left,right⟩ | ⟨j,left,right⟩ | right⟩
    · rcases Nat.eq_or_lt_of_le (matches_le _ _ _ left) with rfl | before
      · exact .inr ⟨taken,.inl ⟨.inl ⟨entered,left⟩,right⟩⟩
      · exact .inl ⟨j,(first j).mpr ⟨before,.inl ⟨entered,left⟩⟩,right⟩
    · rcases Nat.eq_or_lt_of_le (leads_le _ _ _ _ left) with rfl | before
      · exact .inr ⟨taken,.inl ⟨.inr left,right⟩⟩
      · exact .inl ⟨j,(first j).mpr ⟨before,.inr left⟩,right⟩
    · exact .inr ⟨taken,.inr right⟩

theorem either_stepped (first : Stepped text i p enters t.first u) (second : Stepped text i q enters t.second v) :
    Stepped text i (.either p q) enters t (.both u v) := by
  intro k
  rw [Leads,both_first,both_second,first,second,matches_either,Leads]
  tauto

theorem entered_iff {counts : List Count} (counted : ∀ c ∈ counts,c.Proper) {skips : Bool} (own : skips = true ↔ Matches text p i i) :
    (∃ c ∈ Count.widest (counts.filterMap (·.next skips)),∃ j,i < j ∧ Matches text p i j ∧ Matches text (.loop p c greedy) j k) ↔
      ∃ c ∈ counts,i < k ∧ Matches text (.loop p c greedy) i k := by
  rw [Count.widest_any]
  · constructor
    · rintro ⟨next,member,further⟩
      obtain ⟨c,listed,found⟩ := List.mem_filterMap.mp member
      exact ⟨c,listed,(loop_onward (counted c listed) own).mpr ⟨next,found,further⟩⟩
    · rintro ⟨c,listed,given⟩
      obtain ⟨next,found,further⟩ := (loop_onward (counted c listed) own).mp given
      exact ⟨next,List.mem_filterMap.mpr ⟨c,listed,found⟩,further⟩
  · rintro wide count covers ⟨j,taken,first,rest⟩
    exact ⟨j,taken,first,loop_wider covers rest⟩

theorem rounds_iff {under : List (Count × Threads)} {entered : List Count} {move : Bool → Threads → Threads}
    (each : ∀ enters u,p.Tidy u → Stepped text i p enters u (move enters u)) (tidy : ∀ round ∈ under,p.Tidy round.2) :
    (∃ round ∈ (entered.filter fun c => !under.any (·.1 == c)).map (fun c => (c,move true .idle)) ++
        under.map (fun (c,u) => (c,move (entered.contains c) u)),
      ∃ j,p.Leads text (i + 1) round.2 j ∧ Matches text (.loop p round.1 greedy) j k) ↔
    (∃ c ∈ entered,∃ j,i < j ∧ Matches text p i j ∧ Matches text (.loop p c greedy) j k) ∨
      ∃ round ∈ under,∃ j,i < j ∧ p.Leads text i round.2 j ∧ Matches text (.loop p round.1 greedy) j k := by
  constructor
  · rintro ⟨round,member,j,leads,rest⟩
    rcases List.mem_append.mp member with fresh | going
    · obtain ⟨c,listed,rfl⟩ := List.mem_map.mp fresh
      obtain ⟨taken,⟨_,first⟩ | nowhere⟩ := (each _ _ (tidy_idle p) j).mp leads
      · exact .inl ⟨c,(List.mem_filter.mp listed).1,j,taken,first,rest⟩
      · exact absurd nowhere (leads_idle p j)
    · obtain ⟨⟨c,u⟩,listed,rfl⟩ := List.mem_map.mp going
      obtain ⟨taken,⟨entered_,first⟩ | further⟩ := (each _ _ (tidy _ listed) j).mp leads
      · exact .inl ⟨c,List.contains_iff_mem.mp entered_,j,taken,first,rest⟩
      · exact .inr ⟨(c,u),listed,j,taken,further,rest⟩
  · rintro (⟨c,listed,j,taken,first,rest⟩ | ⟨⟨c,u⟩,listed,j,taken,further,rest⟩)
    · by_cases present : ∃ u,(c,u) ∈ under
      · obtain ⟨u,present⟩ := present
        refine ⟨_,List.mem_append.mpr (.inr (List.mem_map.mpr ⟨_,present,rfl⟩)),j,?_,rest⟩
        exact (each _ _ (tidy _ present) j).mpr ⟨taken,.inl ⟨List.contains_iff_mem.mpr listed,first⟩⟩
      · have new : c ∈ entered.filter fun c => !under.any (·.1 == c) := by
          refine List.mem_filter.mpr ⟨listed,?_⟩
          simp only [Bool.not_eq_true',List.any_eq_false,beq_iff_eq]
          rintro ⟨d,u⟩ held rfl
          exact present ⟨u,held⟩
        refine ⟨_,List.mem_append.mpr (.inl (List.mem_map.mpr ⟨c,new,rfl⟩)),j,?_,rest⟩
        exact (each _ _ (tidy_idle p) j).mpr ⟨taken,.inl ⟨rfl,first⟩⟩
    · refine ⟨_,List.mem_append.mpr (.inr (List.mem_map.mpr ⟨_,listed,rfl⟩)),j,?_,rest⟩
      exact (each _ _ (tidy _ listed) j).mpr ⟨taken,.inr further⟩

-- The counts that loops stand with at a boundary: that of the loop, if it is entered, and those whose rounds end there.
def standing (enters : Bool) (count : Count) (done : List Count) : List Count := if enters then count :: done else done

theorem mem_standing {done : List Count} : c ∈ standing enters count done ↔ (enters = true ∧ c = count) ∨ c ∈ done := by
  cases enters <;> simp [standing]

theorem mem_done {under : List (Count × Threads)} {leaves : Threads → Bool} :
    c ∈ (under.filterMap fun (c,u) => if leaves u then some c else none) ↔ ∃ round ∈ under,leaves round.2 = true ∧ round.1 = c := by
  simp [List.mem_filterMap]

theorem loop_stepped {leaves : Threads → Bool} {move : Bool → Threads → Threads} {skips : Bool} {done entered : List Count}
    (proper : count.Proper) (tidy : (Pattern.loop p count greedy).Tidy t) (own : skips = true ↔ Matches text p i i)
    (out : ∀ u,p.Tidy u → (leaves u = true ↔ p.Leads text i u i))
    (each : ∀ enters u,p.Tidy u → Stepped text i p enters u (move enters u))
    (ended : done = t.underWay.filterMap fun (c,u) => if leaves u then some c else none)
    (widest : entered = Count.widest ((standing enters count done).filterMap (·.next skips))) :
    Stepped text i (.loop p count greedy) enters t (.ofRounds
      ((entered.filter fun c => !t.underWay.any (·.1 == c)).map (fun c => (c,move true .idle)) ++
        t.underWay.map (fun (c,u) => (c,move (entered.contains c) u)))) := by
  intro k
  have ends : ∀ c,c ∈ done ↔ ∃ round ∈ t.underWay,p.Leads text i round.2 i ∧ round.1 = c := by
    intro c
    rw [ended,mem_done]
    exact exists_congr fun round => and_congr_right fun member => and_congr_left fun _ => out round.2 (tidy round member).2
  have counted : ∀ c ∈ standing enters count done,c.Proper := by
    intro c member
    rcases mem_standing.mp member with ⟨_,rfl⟩ | left
    · exact proper
    · obtain ⟨round,held,_,rfl⟩ := (ends c).mp left
      exact (tidy round held).1
  rw [leads_ofRounds,rounds_iff each (fun round member => (tidy round member).2),widest,entered_iff counted own,Leads]
  constructor
  · rintro (⟨c,member,taken,rest⟩ | ⟨round,held,j,taken,further,rest⟩)
    · refine ⟨taken,?_⟩
      rcases mem_standing.mp member with ⟨entered_,rfl⟩ | left
      · exact .inl ⟨entered_,rest⟩
      · obtain ⟨round,held,here,rfl⟩ := (ends c).mp left
        exact .inr ⟨round,held,i,here,rest⟩
    · exact ⟨Nat.lt_of_lt_of_le taken (matches_le _ _ _ rest),.inr ⟨round,held,j,further,rest⟩⟩
  · rintro ⟨taken,⟨entered_,rest⟩ | ⟨round,held,j,further,rest⟩⟩
    · exact .inl ⟨count,mem_standing.mpr (.inl ⟨entered_,rfl⟩),taken,rest⟩
    · rcases Nat.eq_or_lt_of_le (leads_le _ _ _ _ further) with rfl | before
      · exact .inl ⟨round.1,mem_standing.mpr (.inr ((ends _).mpr ⟨round,held,further,rfl⟩)),taken,rest⟩
      · exact .inr ⟨round,held,j,before,further,rest⟩

theorem step_stepped (proper : p.Proper) (tidy : p.Tidy t) (here : text[i]? = some c) :
    Stepped text i p enters t (p.step (boundary text i) c enters t) := by
  induction p generalizing enters t with
  | empty =>
      intro k
      simp [Leads,matches_empty]
      omega
  | chars allowed =>
      intro k
      rw [Leads,Leads,matches_chars,step,here]
      simp only [Option.some.injEq,exists_eq_left']
      constructor
      · rintro ⟨held,rfl⟩
        split at held
        · rename_i taken
          rw [Bool.and_eq_true] at taken
          exact ⟨Nat.lt_succ_self i,.inl ⟨taken.1,taken.2,rfl⟩⟩
        · cases held
      · rintro ⟨later,⟨entered,taken,rfl⟩ | ⟨_,rfl⟩⟩
        · rw [entered,taken]
          exact ⟨rfl,rfl⟩
        · omega
  | assert a =>
      intro k
      simp [Leads,matches_assert]
      omega
  | seq p q first second =>
      rw [step]
      split
      · rename_i away
        exact stepped_idle _ away
      · refine seq_stepped ?_ (first proper.1 tidy.1) (second proper.2 tidy.2)
        rw [Bool.or_eq_true,Bool.and_eq_true,skips_iff proper.1,exits_iff proper.1 tidy.1]
  | either p q first second =>
      rw [step]
      split
      · rename_i away
        exact stepped_idle _ away
      · exact either_stepped (first proper.1 tidy.1) (second proper.2 tidy.2)
  | loop p count greedy each =>
      rw [step]
      split
      · rename_i away
        exact stepped_idle _ away
      · exact loop_stepped proper.1 tidy (skips_iff proper.2) (fun _ => exits_iff proper.2) (fun _ _ => each proper.2) rfl rfl
  | group capture p inner =>
      intro k
      rw [Leads,step,inner proper tidy,matches_group,Leads]

theorem tidy_both (first : p.Tidy t) (second : q.Tidy u) : (Pattern.seq p q).Tidy (.both t u) := by
  rw [Tidy,both_first,both_second]
  exact ⟨first,second⟩

theorem step_tidy (proper : p.Proper) (tidy : p.Tidy t) (b : Boundary) (c : Char) : p.Tidy (p.step b c enters t) := by
  induction p generalizing enters t with
  | empty => trivial
  | chars allowed => trivial
  | assert a => trivial
  | seq p q first second =>
      rw [step]
      split
      · exact tidy_idle _
      · exact tidy_both (first proper.1 tidy.1) (second proper.2 tidy.2)
  | either p q first second =>
      rw [step]
      split
      · exact tidy_idle _
      · exact tidy_both (first proper.1 tidy.1) (second proper.2 tidy.2)
  | loop p count greedy each =>
      rw [step]
      split
      · exact tidy_idle _
      · intro round member
        rw [underWay_ofRounds] at member
        rcases List.mem_append.mp (List.mem_filter.mp member).1 with fresh | going
        · obtain ⟨next,listed,rfl⟩ := List.mem_map.mp fresh
          have entered := (Count.mem_widest.mp (List.mem_filter.mp listed).1).1
          obtain ⟨d,stands,found⟩ := List.mem_filterMap.mp entered
          have counted : d.Proper := by
            rcases mem_standing.mp stands with ⟨_,rfl⟩ | left
            · exact proper.1
            · obtain ⟨round,held,_,rfl⟩ := mem_done.mp left
              exact (tidy round held).1
          exact ⟨Count.next_proper counted found,each proper.2 (tidy_idle p)⟩
        · obtain ⟨round,held,rfl⟩ := List.mem_map.mp going
          exact ⟨(tidy round held).1,each proper.2 (tidy round held).2⟩
  | group capture p inner => exact inner proper tidy

theorem boundary_at (front rest : List Char) : boundary (front ++ rest) front.length = ⟨front.getLast?,rest.head?⟩ := by
  have after : (front ++ rest)[front.length]? = rest.head? := by
    rw [List.getElem?_append_right (Nat.le_refl _),Nat.sub_self,List.head?_eq_getElem?]
  rw [boundary,after,List.getLast?_eq_getElem?]
  cases front with
  | nil => rfl
  | cons c front =>
      have before : (c :: front ++ rest)[(c :: front).length - 1]? = (c :: front)[(c :: front).length - 1]? :=
        List.getElem?_append_left (by simp)
      rw [before,if_neg (by simp)]

theorem matches_bound (p : Pattern) (i k : Nat) (given : Matches text p i k) (within : i ≤ text.length) : k ≤ text.length := by
  induction p generalizing i k with
  | empty =>
      cases matches_empty.mp given
      exact within
  | chars allowed =>
      obtain ⟨c,found,_,rfl⟩ := matches_chars.mp given
      exact (List.getElem?_eq_some_iff.mp found).1
  | assert a =>
      obtain ⟨_,rfl⟩ := matches_assert.mp given
      exact within
  | seq p q first second =>
      obtain ⟨j,left,right⟩ := matches_seq.mp given
      exact second _ _ right (first _ _ left within)
  | either p q first second => exact (matches_either.mp given).elim (first _ _ · within) (second _ _ · within)
  | loop p count greedy each =>
      obtain ⟨n,_,rounds⟩ := matches_loop.mp given
      exact repeats_keeps (· ≤ text.length) each rounds within
  | group capture p inner => exact inner _ _ (matches_group.mp given) within

-- From a boundary on: threads that get through, or a match that begins there or later.
theorem foundFrom_iff (proper : p.Proper) (tidy : p.Tidy t) (front rest : List Char) :
    p.foundFrom front.getLast? t rest = true ↔ (∃ k,k ≤ (front ++ rest).length ∧ p.Leads (front ++ rest) front.length t k) ∨
      ∃ i k,front.length ≤ i ∧ i ≤ (front ++ rest).length ∧ Matches (front ++ rest) p i k := by
  induction rest generalizing front t with
  | nil =>
      have here := boundary_at front []
      rw [foundFrom,Bool.or_eq_true,← List.head?_nil,← here,skips_iff proper,exits_iff proper tidy,List.append_nil]
      constructor
      · rintro (nothing | out)
        · exact .inr ⟨_,_,Nat.le_refl _,Nat.le_refl _,nothing⟩
        · exact .inl ⟨_,Nat.le_refl _,out⟩
      · rintro (⟨k,within,out⟩ | ⟨i,k,after,within,given⟩)
        · cases Nat.le_antisymm within (leads_le _ _ _ _ out)
          exact .inr out
        · cases Nat.le_antisymm within after
          cases Nat.le_antisymm (matches_bound _ _ _ given (Nat.le_refl _)) (matches_le _ _ _ given)
          exact .inl given
  | cons c rest ih =>
      have here := boundary_at front (c :: rest)
      have longer : (front ++ [c]).length = front.length + 1 := by simp
      have same : front ++ [c] ++ rest = front ++ c :: rest := by simp
      have next : (front ++ [c]).getLast? = some c := by simp
      have stepped : Stepped (front ++ c :: rest) front.length p true t _ := step_stepped proper tidy (c := c) (by simp)
      have kept : p.Tidy (p.step (boundary (front ++ c :: rest) front.length) c true t) := step_tidy proper tidy _ c
      have later := ih kept (front ++ [c])
      have bound : front.length ≤ (front ++ c :: rest).length := by simp
      rw [next,same,longer] at later
      rw [List.head?_cons] at here
      rw [foundFrom,← here,Bool.or_eq_true,Bool.or_eq_true,later,skips_iff proper,exits_iff proper tidy]
      generalize front ++ c :: rest = text at *
      constructor
      · rintro ((nothing | out) | ⟨k,within,out⟩ | ⟨i,k,after,within,given⟩)
        · exact .inr ⟨_,_,Nat.le_refl _,bound,nothing⟩
        · exact .inl ⟨_,bound,out⟩
        · obtain ⟨_,⟨_,given⟩ | through⟩ := (stepped k).mp out
          · exact .inr ⟨_,_,Nat.le_refl _,bound,given⟩
          · exact .inl ⟨k,within,through⟩
        · exact .inr ⟨i,k,by omega,within,given⟩
      · rintro (⟨k,within,through⟩ | ⟨i,k,after,within,given⟩)
        · rcases Nat.eq_or_lt_of_le (leads_le _ _ _ _ through) with rfl | taken
          · exact .inl (.inr through)
          · exact .inr (.inl ⟨k,within,(stepped k).mpr ⟨taken,.inr through⟩⟩)
        · rcases Nat.eq_or_lt_of_le after with rfl | later
          · rcases Nat.eq_or_lt_of_le (matches_le _ _ _ given) with rfl | taken
            · exact .inl (.inl given)
            · exact .inr (.inl ⟨k,matches_bound _ _ _ given within,(stepped k).mpr ⟨taken,.inl ⟨rfl,given⟩⟩⟩)
          · exact .inr (.inr ⟨i,k,later,within,given⟩)

theorem found_iff (proper : p.Proper) (text : List Char) :
    p.found text = true ↔ ∃ i k,i ≤ text.length ∧ Matches text p i k := by
  rw [found,show (none : Option Char) = ([] : List Char).getLast? from rfl,foundFrom_iff proper (tidy_idle p) [] text]
  simp [leads_idle]

end SharedTree.Pattern
