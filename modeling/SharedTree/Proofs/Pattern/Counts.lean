import SharedTree.Proofs.Pattern.Search
import SharedTree.Proofs.Pattern.Steps

namespace SharedTree.Pattern

variable {r r' : Reading} {s rest : List Char} {items : List Item} {branches : List Branch} {p : Pattern} {count : Count}

def Items (items : List Item) : Prop := ∀ item ∈ items,∀ p ∈ item.pattern,p.Proper

def Branches (branches : List Branch) : Prop := ∀ branch ∈ branches,branch.pattern.Proper

structure Counted (r : Reading) : Prop where
  items : Items r.items
  branches : Branches r.branches
  groups : ∀ opened ∈ r.groups,Items opened.before ∧ Branches opened.branches

theorem items_nil : Items [] := by
  intro item member
  cases member

theorem branches_nil : Branches [] := by
  intro branch member
  cases member

theorem items_cons {item : Item} (own : ∀ p ∈ item.pattern,p.Proper) (others : Items items) : Items (item :: items) := by
  intro found member
  rcases List.mem_cons.mp member with rfl | later
  · exact own
  · exact others found later

theorem sequence_proper (counted : Items items) : (sequence items).pattern.Proper := by
  have each : ∀ p ∈ items.filterMap Item.pattern,p.Proper := by
    intro p member
    obtain ⟨item,inside,known⟩ := List.mem_filterMap.mp member
    exact counted item inside p known
  have joined : ∀ (before : List Pattern) (last : Pattern),last.Proper → (∀ p ∈ before,p.Proper) →
      (before.foldl (fun rest item => .seq item rest) last).Proper := by
    intro before
    induction before with
    | nil => exact fun last own _ => own
    | cons p before ih =>
        intro last own others
        exact ih _ ⟨others p List.mem_cons_self,own⟩ fun q member => others q (List.mem_cons_of_mem p member)
  unfold sequence
  dsimp only
  split
  · trivial
  · rename_i last before same
    rw [same] at each
    exact joined before last (each last List.mem_cons_self) fun p member => each p (List.mem_cons_of_mem last member)

theorem alternatives_proper (own : Items items) (others : Branches branches) : (alternatives branches items).pattern.Proper := by
  have joined : ∀ (branches : List Branch) (last : Pattern),last.Proper → Branches branches →
      (branches.foldl (fun rest branch => .either branch.pattern rest) last).Proper := by
    intro branches
    induction branches with
    | nil => exact fun last own _ => own
    | cons branch branches ih =>
        intro last own others
        exact ih _ ⟨others branch List.mem_cons_self,own⟩ fun found member => others found (List.mem_cons_of_mem branch member)
  exact joined branches _ (sequence_proper own) others

theorem chars_proper (allowed : CharSet) : (Pattern.chars allowed).Proper := trivial

theorem assert_proper (a : Assertion) : (Pattern.assert a).Proper := trivial

theorem open_proper (least : Nat) : (⟨least,none⟩ : Count).Proper := by
  intro m same
  cases same

theorem Counted.add (counted : Counted r) (own : p.Proper) (height : Nat) : Counted (r.add p height) :=
  ⟨items_cons (by rintro q ⟨⟩; exact own) counted.items,counted.branches,counted.groups⟩

theorem Counted.openGroup (counted : Counted r) (capture : Option Nat) (set : Flags) : Counted (r.openGroup capture set) := by
  refine ⟨items_nil,branches_nil,fun opened member => ?_⟩
  rcases List.mem_cons.mp member with rfl | earlier
  · exact ⟨counted.items,counted.branches⟩
  · exact counted.groups opened earlier

theorem Counted.openCapture (counted : Counted r) : Counted r.openCapture := by
  have numbered : Counted { r with captures := r.captures + 1 } := ⟨counted.items,counted.branches,counted.groups⟩
  exact numbered.openGroup _ _

theorem Counted.close (counted : Counted r) (closed : r.close? = some r') : Counted r' := by
  unfold Reading.close? at closed
  split at closed
  · cases closed
  · rename_i opened groups same
    cases closed
    have outer := counted.groups opened (by rw [same]; exact List.mem_cons_self)
    refine ⟨items_cons ?_ outer.1,outer.2,fun found member => ?_⟩
    · rintro q ⟨⟩
      exact alternatives_proper counted.items counted.branches
    · exact counted.groups found (by rw [same]; exact List.mem_cons_of_mem opened member)

theorem Counted.repeat (counted : Counted r) (proper : count.Proper) (read : r.repeat? count s = some (r',rest)) : Counted r' := by
  unfold Reading.repeat? at read
  split at read
  · rename_i p height items same
    dsimp only at read
    have inside := counted.items
    rw [same] at inside
    have own := inside _ List.mem_cons_self p rfl
    split at read
    all_goals
      cases read
      exact ⟨items_cons (by rintro q ⟨⟩; exact ⟨proper,own⟩) fun item member => inside item (List.mem_cons_of_mem _ member),
        counted.branches,counted.groups⟩
  · cases read

theorem count_proper (read : count? s = some (count,rest)) : count.Proper := by
  simp only [count?,Option.bind_eq_bind,Option.bind_eq_some_iff] at read
  obtain ⟨⟨least,after⟩,_,read⟩ := read
  dsimp only at read
  split at read
  · cases read
    rintro m ⟨⟩
    exact Nat.le_refl least
  · cases read
    exact open_proper least
  · obtain ⟨⟨most,last⟩,_,read⟩ := Option.bind_eq_some_iff.mp read
    dsimp only at read
    split at read
    · split at read
      · rename_i ordered
        cases read
        rintro m ⟨⟩
        exact ordered
      · cases read
    · cases read
  · cases read

theorem Counted.flagged (counted : Counted r) (set : Flags) (inside : Bool) : Counted (r.flagged set inside) := by
  cases inside with
  | true => exact counted.openGroup none set
  | false => exact ⟨items_cons (by intro p known; cases known) counted.items,counted.branches,counted.groups⟩

theorem Counted.named (counted : Counted r) (read : r.namedGroup? s = some (r',rest)) : Counted r' := by
  rw [namedGroup_eq] at read
  obtain ⟨⟨name,behind⟩,_,read⟩ := Option.bind_eq_some_iff.mp read
  obtain ⟨opened,named,same⟩ := Option.map_eq_some_iff.mp read
  cases same
  unfold Reading.named? at named
  split at named
  · cases named
  · cases named
    have called : Counted { r with names := name :: r.names } := ⟨counted.items,counted.branches,counted.groups⟩
    exact called.openCapture

theorem Counted.group (counted : Counted r) (read : r.group? s = some (r',rest)) : Counted r' := by
  cases opening s with
  | plain unmarked =>
      rw [group_plain unmarked] at read
      cases read
      exact counted.openCapture
  | flags first =>
      rw [group_flags first] at read
      obtain ⟨_,_,same⟩ := Option.map_eq_some_iff.mp read
      cases same
      exact counted.flagged _ _
  | named around =>
      rw [group_named around] at read
      exact counted.named read
  | marked => exact counted.named read
  | never fails => cases (fails r).symm.trans read

theorem Counted.chars (counted : Counted r) (allowed : CharSet) : Counted (r.chars allowed) := counted.add (chars_proper _) 0

theorem Counted.step {c : Char} (counted : Counted r) (read : r.step? c s = some (r',rest)) : Counted r' := by
  by_cases special : c ∈ specials
  · simp only [specials,List.mem_cons,List.not_mem_nil,or_false] at special
    rcases special with rfl | rfl | rfl | rfl | rfl | rfl | rfl | rfl | rfl | rfl | rfl | rfl
    · exact counted.group read
    · obtain ⟨closed,known,same⟩ := Option.map_eq_some_iff.mp read
      cases same
      exact counted.close known
    · cases read
      refine ⟨items_nil,fun branch member => ?_,counted.groups⟩
      rcases List.mem_cons.mp member with rfl | earlier
      · exact sequence_proper counted.items
      · exact counted.branches branch earlier
    · rw [class_step] at read
      obtain ⟨_,_,same⟩ := Option.map_eq_some_iff.mp read
      cases same
      exact counted.add (chars_proper _) _
    · exact counted.repeat (by rintro m ⟨⟩; exact Nat.zero_le 1) read
    · exact counted.repeat (open_proper 0) read
    · exact counted.repeat (open_proper 1) read
    · rw [count_step] at read
      obtain ⟨⟨count,behind⟩,known,read⟩ := Option.bind_eq_some_iff.mp read
      exact counted.repeat (count_proper known) read
    · rw [escape_step] at read
      obtain ⟨⟨atom,behind⟩,_,same⟩ := Option.map_eq_some_iff.mp read
      cases same
      cases atom with
      | char c => exact counted.chars _
      | chars allowed => exact counted.add (chars_proper _) 0
      | assert a => exact counted.add (assert_proper _) 0
    · cases read
      exact counted.add (chars_proper _) 0
    · cases read
      exact counted.add (assert_proper _) 0
    · cases read
      exact counted.add (assert_proper _) 0
  · rw [step_plain special] at read
    cases read
    exact counted.chars _

theorem Reads.proper {b : Branch} (reads : Reads r s b) (counted : Counted r) : b.pattern.Proper := by
  induction reads with
  | done outside => exact alternatives_proper counted.items counted.branches
  | step first others ih => exact ih (counted.step first)

theorem read_proper {text : String} (read : read? text = some p) : p.Proper := by
  unfold read? at read
  dsimp only at read
  split at read
  · rename_i found
    split at read
    · cases read
      have begun : Counted ⟨.none,[],0,[],[],[]⟩ := ⟨items_nil,branches_nil,by intro opened member; cases member⟩
      exact (readFrom_reads _ _ _ found).proper begun
    · cases read
  · cases read

end SharedTree.Pattern
