import SharedTree.Proofs.Pattern.Classes

namespace SharedTree.Pattern

inductive Opening : List Char → Prop where
  | plain (unmarked : s.head? ≠ some '?') : Opening s
  | flags (first : ∀ c ∈ s.head?,c ∉ ['=','!','<','P',')']) : Opening ('?' :: s)
  | named (around : ∀ c ∈ s.head?,c ∉ ['=','!']) : Opening ('?' :: '<' :: s)
  | marked : Opening ('?' :: 'P' :: '<' :: s)
  | never (fails : ∀ r : Reading,r.group? s = none) : Opening s

inductive Reads : Reading → List Char → Branch → Prop where
  | done (outside : r.groups = []) : Reads r [] (alternatives r.branches r.items)
  | step (first : r.step? c s = some (r',rest)) (others : Reads r' rest b) : Reads r (c :: s) b

variable {near : List Char → List Char → Prop} {c : Char} {s s' w rest : List Char} {r r' : Reading} {outer : OpenGroup}

theorem Decided.weaken {nearer : List Char → List Char → Prop} {read : List Char → Option (α × List Char)}
    (decided : Decided near read) (closer : ∀ rest rest',nearer rest rest' → near rest rest') : Decided nearer read := by
  intro s a rest found
  obtain ⟨w,same,again⟩ := decided s a rest found
  exact ⟨w,same,fun rest' other => again rest' (closer _ _ other)⟩

theorem decided_here (a : α) : Decided near fun s => some (a,s) := by
  intro s b rest found
  cases found
  exact ⟨[],rfl,fun _ _ => rfl⟩

theorem Decided.mapped {read : List Char → Option (α × List Char)} (decided : Decided near read) (f : α → β) :
    Decided near fun s => (read s).map fun found => (f found.1,found.2) := by
  intro s b rest found
  obtain ⟨⟨a,behind⟩,first,same⟩ := Option.map_eq_some_iff.mp found
  cases same
  obtain ⟨w,same,again⟩ := decided s a behind first
  refine ⟨w,same,fun rest' other => ?_⟩
  dsimp only
  rw [again rest' other]
  rfl

theorem Decided.before {read : List Char → Option (α × List Char)} {next : α → List Char → Option (β × List Char)}
    (decided : Decided Any read) (further : ∀ a,Decided near (next a)) :
    Decided near fun s => (read s).bind fun found => next found.1 found.2 := by
  intro s b rest found
  obtain ⟨⟨a,behind⟩,first,second⟩ := Option.bind_eq_some_iff.mp found
  obtain ⟨w,rfl,again⟩ := decided s a behind first
  obtain ⟨v,rfl,again'⟩ := further a behind b rest second
  refine ⟨w ++ v,by simp,fun rest' other => ?_⟩
  dsimp only
  rw [List.append_assoc,again _ trivial]
  exact again' rest' other

-- What may stand behind a step in place of what does.
structure Near (rest rest' : List Char) : Prop where
  freer : Freer rest rest'
  unmarked : rest.head? ≠ some '?' → rest'.head? ≠ some '?'

def Reading.looped? (r : Reading) (count : Count) (greedy : Bool) : Option Reading :=
  match r.items with
  | ⟨some p,height⟩ :: items => some { r with items := ⟨some (.loop p count greedy),height + 1⟩ :: items }
  | _ => none

theorem repeat_marked (r : Reading) (count : Count) (s : List Char) :
    r.repeat? count ('?' :: s) = (r.looped? count r.flags.lazy).map (·,s) := by
  obtain ⟨flags,names,captures,groups,branches,items⟩ := r
  rcases items with _ | ⟨⟨_ | p,height⟩,items⟩ <;> rfl

theorem repeat_unmarked (count : Count) (unmarked : s.head? ≠ some '?') :
    r.repeat? count s = (r.looped? count (!r.flags.lazy)).map (·,s) := by
  obtain ⟨flags,names,captures,groups,branches,items⟩ := r
  rcases items with _ | ⟨⟨_ | p,height⟩,items⟩
  · rfl
  · rfl
  · unfold Reading.repeat?
    dsimp only
    split
    · exact absurd rfl unmarked
    · rfl

theorem repeat_decided (r : Reading) (count : Count) : Decided Near (r.repeat? count) := by
  intro s a rest found
  by_cases marked : s.head? = some '?'
  · obtain ⟨tail,rfl⟩ := List.head?_eq_some_iff.mp marked
    rw [repeat_marked] at found
    obtain ⟨looped,known,same⟩ := Option.map_eq_some_iff.mp found
    cases same
    exact ⟨['?'],rfl,fun rest' _ => by rw [List.singleton_append,repeat_marked,known]; rfl⟩
  · rw [repeat_unmarked count marked] at found
    obtain ⟨looped,known,same⟩ := Option.map_eq_some_iff.mp found
    cases same
    exact ⟨[],rfl,fun rest' close => by rw [List.nil_append,repeat_unmarked count (close.unmarked marked),known]; rfl⟩

def Reading.flagged (r : Reading) (set : Flags) (inside : Bool) : Reading :=
  if inside then r.openGroup none set else { r with flags := set, items := ⟨none,0⟩ :: r.items }

theorem group_plain (unmarked : s.head? ≠ some '?') : r.group? s = some (r.openCapture,s) := by
  unfold Reading.group?
  split
  all_goals first | rfl | exact absurd rfl unmarked

theorem group_flags (first : ∀ c ∈ s.head?,c ∉ ['=','!','<','P',')']) :
    r.group? ('?' :: s) = (flags? [] r.flags s).map fun found => (r.flagged found.1 found.2.1,found.2.2) := by
  rw [Reading.group?]
  · simp only [Option.bind_eq_bind]
    cases flags? [] r.flags s with
    | none => rfl
    | some found =>
        obtain ⟨set,inside,rest⟩ := found
        cases inside <;> rfl
  all_goals
    intro tail same
    subst same
    exact first _ rfl (by simp)

def Reading.named? (r : Reading) (name : String) : Option Reading :=
  if r.names.contains name then none else some { r with names := name :: r.names }.openCapture

theorem namedGroup_eq (r : Reading) (s : List Char) :
    r.namedGroup? s = (groupName? s).bind fun found => (r.named? found.1).map (·,found.2) := by
  unfold Reading.namedGroup? Reading.named?
  cases groupName? s with
  | none => rfl
  | some found =>
      simp only [Option.bind_eq_bind,Option.bind_some]
      split <;> rfl

theorem namedGroup_decided (r : Reading) : Decided Any r.namedGroup? := by
  have further : ∀ name,Decided Any fun s => (r.named? name).map (·,s) := by
    intro name s a rest found
    obtain ⟨opened,known,same⟩ := Option.map_eq_some_iff.mp found
    cases same
    exact ⟨[],rfl,fun rest' _ => by simp [known]⟩
  rw [funext (namedGroup_eq r)]
  exact groupName_decided.before further

theorem Decided.nonempty {read : List Char → Option (α × List Char)} (decided : Decided Any read) (never : read [] = none) (found : read s = some (a,rest)) :
    ∃ c w,s = c :: w ++ rest ∧ ∀ rest',read (c :: w ++ rest') = some (a,rest') := by
  obtain ⟨w,rfl,again⟩ := decided s a rest found
  cases w with
  | nil => cases never.symm.trans (again [] trivial)
  | cons c w => exact ⟨c,w,rfl,fun rest' => again rest' trivial⟩

theorem group_named (first : ∀ c ∈ s.head?,c ∉ ['=','!']) : r.group? ('?' :: '<' :: s) = r.namedGroup? s := by
  rw [Reading.group?]
  all_goals
    rintro tail rfl
    exact first _ rfl (by simp)

theorem group_unknown (other : s.head? ≠ some '<') : r.group? ('?' :: 'P' :: s) = none := by
  have unknown : flags? [] r.flags ('P' :: s) = none := by simp [flags?,setFlag?]
  rw [Reading.group?,unknown]
  · rfl
  all_goals
    intro u same
    first
    | exact absurd (List.cons.inj same).1 (by decide)
    | exact absurd (congrArg List.head? (List.cons.inj same).2) other

theorem opening_marked (s : List Char) : Opening ('?' :: s) := by
  by_cases first : ∀ c ∈ s.head?,c ∉ ['=','!','<','P',')']
  · exact .flags first
  · simp only [not_forall,not_not] at first
    obtain ⟨c,begins,among⟩ := first
    obtain ⟨t,rfl⟩ := List.head?_eq_some_iff.mp begins
    simp only [List.mem_cons,List.not_mem_nil,or_false] at among
    rcases among with rfl | rfl | rfl | rfl | rfl
    · exact .never fun r => rfl
    · exact .never fun r => rfl
    · by_cases around : ∀ c ∈ t.head?,c ∉ ['=','!']
      · exact .named around
      · simp only [not_forall,not_not] at around
        obtain ⟨d,begins,among⟩ := around
        obtain ⟨u,rfl⟩ := List.head?_eq_some_iff.mp begins
        simp only [List.mem_cons,List.not_mem_nil,or_false] at among
        rcases among with rfl | rfl <;> exact .never fun r => rfl
    · by_cases opens : t.head? = some '<'
      · obtain ⟨u,rfl⟩ := List.head?_eq_some_iff.mp opens
        exact .marked
      · exact .never fun r => group_unknown opens
    · exact .never fun r => rfl

theorem opening (s : List Char) : Opening s := by
  by_cases marked : s.head? = some '?'
  · obtain ⟨s,rfl⟩ := List.head?_eq_some_iff.mp marked
    exact opening_marked s
  · exact .plain marked

theorem group_decided (r : Reading) : Decided Near r.group? := by
  intro s a rest found
  cases opening s with
  | plain unmarked =>
      rw [group_plain unmarked] at found
      cases found
      exact ⟨[],rfl,fun rest' close => group_plain (close.unmarked unmarked)⟩
  | flags first =>
      rw [group_flags first] at found
      obtain ⟨⟨set,inside,behind⟩,flags,same⟩ := Option.map_eq_some_iff.mp found
      cases same
      obtain ⟨w,rfl,again⟩ := flags_decided _ _ _ flags
      cases w with
      | nil => cases again []
      | cons c w =>
          refine ⟨'?' :: c :: w,rfl,fun rest' _ => ?_⟩
          have first' : ∀ d ∈ (c :: w ++ rest').head?,d ∉ ['=','!','<','P',')'] := first
          rw [List.cons_append,group_flags first',again rest']
          rfl
  | named around =>
      rw [group_named around] at found
      obtain ⟨d,w,rfl,again⟩ := (namedGroup_decided r).nonempty rfl found
      refine ⟨'?' :: '<' :: d :: w,rfl,fun rest' _ => ?_⟩
      have around' : ∀ c ∈ (d :: w ++ rest').head?,c ∉ ['=','!'] := around
      exact (group_named around').trans (again rest')
  | marked =>
      obtain ⟨w,rfl,again⟩ := namedGroup_decided r _ a rest found
      exact ⟨'?' :: 'P' :: '<' :: w,rfl,fun rest' _ => again rest' trivial⟩
  | never fails => cases (fails r).symm.trans found

def specials : List Char := ['(',')','|','[','?','*','+','\x7b','\\','.','^','$']

theorem step_plain (plain : c ∉ specials) (r : Reading) (s : List Char) : r.step? c s = some (r.chars (.single c),s) := by
  unfold Reading.step?
  split
  all_goals first | rfl | exact absurd (by simp [specials]) plain

theorem count_step (r : Reading) (s : List Char) : r.step? '\x7b' s = (count? s).bind fun found => r.repeat? found.1 found.2 := rfl

theorem step_decided (r : Reading) (c : Char) : Decided Near (r.step? c) := by
  by_cases special : c ∈ specials
  · simp only [specials,List.mem_cons,List.not_mem_nil,or_false] at special
    rcases special with rfl | rfl | rfl | rfl | rfl | rfl | rfl | rfl | rfl | rfl | rfl | rfl
    · exact group_decided r
    · intro s a rest found
      obtain ⟨closed,known,same⟩ := Option.map_eq_some_iff.mp found
      cases same
      exact ⟨[],rfl,fun rest' _ => congrArg (Option.map (·,rest')) known⟩
    · exact decided_here _
    · exact ((class_decided r.flags.ignoreCase).weaken fun _ _ _ => trivial).mapped fun part => r.add (.chars part.set) part.height
    · exact repeat_decided r _
    · exact repeat_decided r _
    · exact repeat_decided r _
    · exact count_decided.before (repeat_decided r)
    · exact (escape_decided.weaken fun _ _ close => close.freer).mapped r.atom
    · exact decided_here _
    · exact decided_here _
    · exact decided_here _
  · rw [funext (step_plain special r)]
    exact decided_here _

def Reading.within (r : Reading) (outer : OpenGroup) : Reading := { r with groups := r.groups ++ [outer] }

theorem repeat_within (r : Reading) (count : Count) (s : List Char) :
    (r.within outer).repeat? count s = (r.repeat? count s).map fun found => (found.1.within outer,found.2) := by
  obtain ⟨flags,names,captures,groups,branches,items⟩ := r
  rcases items with _ | ⟨⟨_ | p,height⟩,items⟩ <;> rfl

theorem namedGroup_within (r : Reading) (s : List Char) :
    (r.within outer).namedGroup? s = (r.namedGroup? s).map fun found => (found.1.within outer,found.2) := by
  rw [namedGroup_eq,namedGroup_eq]
  cases groupName? s with
  | none => rfl
  | some found =>
      have opened : (r.within outer).named? found.1 = (r.named? found.1).map (·.within outer) := by
        unfold Reading.named?
        split
        · rename_i taken
          rw [if_pos (by exact taken)]
          rfl
        · rename_i new
          rw [if_neg (by exact new)]
          rfl
      rw [Option.bind_some,Option.bind_some,opened,Option.map_map,Option.map_map]
      rfl

theorem group_within (r : Reading) (s : List Char) :
    (r.within outer).group? s = (r.group? s).map fun found => (found.1.within outer,found.2) := by
  cases opening s with
  | plain unmarked =>
      rw [group_plain unmarked,group_plain unmarked]
      rfl
  | @flags s first =>
      have same : (r.within outer).flags = r.flags := rfl
      rw [group_flags first,group_flags first,same,Option.map_map]
      refine congrArg (Option.map · (flags? [] r.flags s)) (funext fun found => ?_)
      obtain ⟨set,inside,behind⟩ := found
      cases inside <;> rfl
  | named around =>
      rw [group_named around,group_named around]
      exact namedGroup_within r _
  | marked => exact namedGroup_within r _
  | never fails =>
      rw [fails,fails]
      rfl

theorem class_step (r : Reading) (s : List Char) :
    r.step? '[' s = (class? r.flags.ignoreCase s).map fun found => (r.add (.chars found.1.set) found.1.height,found.2) := rfl

theorem escape_step (r : Reading) (s : List Char) : r.step? '\\' s = (escape? s).map fun found => (r.atom found.1,found.2) := rfl

-- Only a parenthesis that closes the outermost group tells whether the reading is inside another.
theorem step_within (inside : c ≠ ')' ∨ r.groups ≠ []) (s : List Char) :
    (r.within outer).step? c s = (r.step? c s).map fun found => (found.1.within outer,found.2) := by
  by_cases special : c ∈ specials
  · simp only [specials,List.mem_cons,List.not_mem_nil,or_false] at special
    rcases special with rfl | rfl | rfl | rfl | rfl | rfl | rfl | rfl | rfl | rfl | rfl | rfl
    · exact group_within r s
    · obtain ⟨flags,names,captures,groups,branches,items⟩ := r
      cases groups with
      | nil => exact inside.elim (absurd rfl) (absurd rfl)
      | cons opened groups => rfl
    · rfl
    · rw [class_step,class_step,Option.map_map]
      rfl
    · exact repeat_within r _ s
    · exact repeat_within r _ s
    · exact repeat_within r _ s
    · rw [count_step,count_step]
      cases count? s with
      | none => rfl
      | some found => exact repeat_within r found.1 found.2
    · rw [escape_step,escape_step,Option.map_map]
      refine congrArg (Option.map · (escape? s)) (funext fun found => ?_)
      obtain ⟨atom,behind⟩ := found
      cases atom <;> rfl
    · rfl
    · rfl
    · rfl
  · rw [step_plain special,step_plain special]
    rfl

variable {b : Branch}

theorem readFrom_nil {fuel : Nat} : readFrom? fuel r [] = some b ↔ r.groups = [] ∧ alternatives r.branches r.items = b := by
  have unfolded : readFrom? fuel r [] = if r.groups.isEmpty then some (alternatives r.branches r.items) else none := by
    cases fuel <;> rfl
  rw [unfolded]
  split
  · rename_i outside
    simp [List.isEmpty_iff.mp outside]
  · rename_i inside
    simp [List.isEmpty_iff.not.mp inside]

theorem readFrom_reads (fuel : Nat) (r : Reading) (s : List Char) (read : readFrom? fuel r s = some b) : Reads r s b := by
  induction fuel generalizing r s with
  | zero =>
      cases s with
      | nil =>
          obtain ⟨outside,rfl⟩ := readFrom_nil.mp read
          exact .done outside
      | cons c s => cases read
  | succ fuel ih =>
      cases s with
      | nil =>
          obtain ⟨outside,rfl⟩ := readFrom_nil.mp read
          exact .done outside
      | cons c s =>
          obtain ⟨⟨r',rest⟩,first,read⟩ := Option.bind_eq_some_iff.mp read
          exact .step first (ih r' rest read)

theorem Reads.read (reads : Reads r s b) (fuel : Nat) (enough : s.length ≤ fuel) : readFrom? fuel r s = some b := by
  induction reads generalizing fuel with
  | done outside => exact readFrom_nil.mpr ⟨outside,rfl⟩
  | step first others ih =>
      obtain ⟨w,rfl,_⟩ := step_decided _ _ _ _ _ first
      rw [List.length_cons,List.length_append] at enough
      obtain ⟨fewer,rfl⟩ := Nat.exists_eq_succ_of_ne_zero (n := fuel) (by omega)
      rw [readFrom?,first]
      exact ih fewer (by omega)

theorem readFrom_iff : readFrom? s.length r s = some b ↔ Reads r s b :=
  ⟨readFrom_reads _ _ _,fun reads => reads.read _ (Nat.le_refl _)⟩

end SharedTree.Pattern
