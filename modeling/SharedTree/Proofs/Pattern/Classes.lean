import SharedTree.Proofs.Pattern.Decided

namespace SharedTree.Pattern

open SharedTree.Path (span_until until_taken)

variable {s v w rest : List Char} {c : Char} {ignoreCase : Bool} {set : CharSet}

theorem name_unclosed {name : String} (known : CharSet.named? name = some set) : ']' ∉ name.toList := by
  unfold CharSet.named? at known
  split at known
  all_goals cases known
  all_goals decide

theorem named_closed (read : named? ignoreCase s = some (set,rest)) :
    ∃ v,s = v ++ ']' :: rest ∧ ']' ∉ v ∧ ∀ rest',named? ignoreCase (v ++ ']' :: rest') = some (set,rest') := by
  unfold named? at read
  split at read
  · rename_i tail
    split at read
    rename_i negated after signed
    split at read
    rename_i name last cut
    split at read
    · rename_i behind
      obtain ⟨found,known,same⟩ := Option.map_eq_some_iff.mp read
      cases same
      obtain ⟨rfl,_,absent⟩ := until_taken cut
      have plain : ']' ∉ name := by simpa using name_unclosed known
      split at signed
      · rename_i tail'
        cases signed
        refine ⟨'[' :: ':' :: '^' :: (name ++ [':']),by simp,by simpa using plain,fun rest' => ?_⟩
        simp only [List.cons_append,List.append_assoc,List.nil_append,named?,span_until absent,known,Option.map_some]
      · rename_i other
        cases signed
        refine ⟨'[' :: ':' :: (name ++ [':']),by simp,by simpa using plain,fun rest' => ?_⟩
        have unsigned : ∀ u,name ++ ':' :: ']' :: rest' ≠ '^' :: u := by
          intro u same
          cases name with
          | nil => cases same
          | cons c name =>
              cases (List.cons.inj same).1
              exact other _ rfl
        simp only [List.cons_append,List.append_assoc,List.nil_append,named?,span_until absent,known,Option.map_some]
    · cases read
  · cases read

-- Texts that a class reads alike up to its end: the first character is the same, and behind
-- any but a closing bracket the second too.
def Alike (s s' : List Char) : Prop := ∃ c u u',s = c :: u ∧ s' = c :: u' ∧ (c ≠ ']' → u.head? = u'.head?)

theorem alike_closed (w rest rest' : List Char) : Alike (w ++ ']' :: rest) (w ++ ']' :: rest') := by
  cases w with
  | nil => exact ⟨']',rest,rest',rfl,rfl,fun other => absurd rfl other⟩
  | cons c w =>
      refine ⟨c,_,_,rfl,rfl,fun _ => ?_⟩
      cases w <;> rfl

theorem Alike.head (alike : Alike s s') : s'.head? = s.head? := by
  obtain ⟨c,u,u',rfl,rfl,_⟩ := alike
  rfl

theorem Alike.freer (alike : Alike s s') : Freer s s' := by
  obtain ⟨c,u,u',rfl,rfl,same⟩ := alike
  intro free tail equal
  cases equal
  rw [← same (by decide)]
  exact free _ rfl

theorem dashes_other (found : ClassItems) (other : s.head? ≠ some '-') : dashes found s = (found,s) := by
  unfold dashes
  split
  · exact absurd rfl other
  · rfl

theorem dashes_decided (found : ClassItems) (s : List Char) (read : dashes found s = (items,rest)) :
    ∃ w,s = w ++ rest ∧ ∀ rest',rest'.head? = rest.head? → dashes found (w ++ rest') = (items,rest') := by
  induction s generalizing found with
  | nil =>
      cases read
      exact ⟨[],rfl,fun rest' same => dashes_other _ (by simp [same])⟩
  | cons c s ih =>
      by_cases dash : c = '-'
      · subst dash
        obtain ⟨w,rfl,again⟩ := ih _ read
        exact ⟨'-' :: w,rfl,again⟩
      · rw [dashes_other found (by simpa using dash)] at read
        cases read
        exact ⟨[],rfl,fun rest' same => dashes_other _ (by simpa [same] using dash)⟩

def firstItems : List Char → ClassItems × List Char
  | ']' :: rest => (ClassItems.none.add ⟨.single ']',0⟩,rest)
  | rest => dashes .none rest

theorem firstItems_other (other : s.head? ≠ some ']') : firstItems s = dashes .none s := by
  unfold firstItems
  split
  · exact absurd rfl other
  · rfl

theorem firstItems_decided (read : firstItems s = (items,rest)) :
    ∃ w,s = w ++ rest ∧ ∀ rest',rest'.head? = rest.head? → (w ++ rest').head? = s.head? ∧ firstItems (w ++ rest') = (items,rest') := by
  have first : ∀ w rest',rest'.head? = rest.head? → (w ++ rest').head? = (w ++ rest).head? := by
    intro w rest' same
    rw [List.head?_append,List.head?_append,same]
  by_cases bracket : s.head? = some ']'
  · obtain ⟨tail,rfl⟩ := List.head?_eq_some_iff.mp bracket
    cases read
    exact ⟨[']'],rfl,fun rest' same => ⟨rfl,rfl⟩⟩
  · rw [firstItems_other bracket] at read
    obtain ⟨w,rfl,again⟩ := dashes_decided _ _ read
    refine ⟨w,rfl,fun rest' same => ⟨first w rest' same,?_⟩⟩
    rw [firstItems_other (by rwa [first w rest' same]),again rest' same]

def openedClass? (outer : ClassItems) (negated : Bool) (s : List Char) : Option (OpenClass × ClassItems × List Char) :=
  let (found,rest) := firstItems s
  if rest.isEmpty then none else some (⟨outer,negated,none⟩,found,rest)

theorem openClass_negated (outer : ClassItems) (s : List Char) : openClass? outer ('^' :: s) = openedClass? outer true s := by
  by_cases bracket : s.head? = some ']'
  · obtain ⟨tail,rfl⟩ := List.head?_eq_some_iff.mp bracket
    rfl
  · rw [openedClass?,firstItems_other bracket,openClass?]
    rintro tail rfl
    exact bracket rfl

theorem openClass_plain (outer : ClassItems) (other : s.head? ≠ some '^') : openClass? outer s = openedClass? outer false s := by
  unfold openClass?
  split
  rename_i negated tail signed
  split at signed
  · exact absurd rfl other
  · cases signed
    by_cases bracket : s.head? = some ']'
    · obtain ⟨tail,rfl⟩ := List.head?_eq_some_iff.mp bracket
      rfl
    · rw [openedClass?,firstItems_other bracket]
      dsimp only
      split
      · exact absurd rfl bracket
      · rfl

theorem openedClass_decided {outer found : ClassItems} {negated : Bool} {opened : OpenClass}
    (read : openedClass? outer negated s = some (opened,found,rest)) :
    ∃ w,s = w ++ rest ∧ ∀ rest',Alike rest rest' → (w ++ rest').head? = s.head? ∧
      openedClass? outer negated (w ++ rest') = some (opened,found,rest') := by
  unfold openedClass? at read
  split at read
  rename_i items behind cut
  split at read
  · cases read
  · rename_i inside
    cases read
    obtain ⟨w,rfl,again⟩ := firstItems_decided cut
    refine ⟨w,rfl,fun rest' alike => ?_⟩
    obtain ⟨first,same⟩ := again rest' alike.head
    obtain ⟨c,u,u',_,rfl,_⟩ := alike
    exact ⟨first,by simp [openedClass?,same]⟩

theorem openClass_decided {outer found : ClassItems} {opened : OpenClass} (read : openClass? outer s = some (opened,found,rest)) :
    ∃ w,s = w ++ rest ∧ ∀ rest',Alike rest rest' → openClass? outer (w ++ rest') = some (opened,found,rest') := by
  by_cases negated : s.head? = some '^'
  · obtain ⟨tail,rfl⟩ := List.head?_eq_some_iff.mp negated
    rw [openClass_negated] at read
    obtain ⟨w,rfl,again⟩ := openedClass_decided read
    exact ⟨'^' :: w,rfl,fun rest' alike => by rw [List.cons_append,openClass_negated,(again rest' alike).2]⟩
  · rw [openClass_plain outer negated] at read
    obtain ⟨w,rfl,again⟩ := openedClass_decided read
    refine ⟨w,rfl,fun rest' alike => ?_⟩
    obtain ⟨first,same⟩ := again rest' alike
    rw [openClass_plain outer (by rwa [first]),same]

theorem classAtom_taken (read : classAtom? s = some (a,rest)) :
    ∃ c w,s = c :: w ++ rest ∧ ∀ rest',Freer rest rest' → classAtom? (c :: w ++ rest') = some (a,rest') := by
  unfold classAtom? at read
  split at read
  · obtain ⟨w,rfl,again⟩ := escape_decided _ _ _ read
    exact ⟨'\\',w,rfl,again⟩
  · rename_i c tail other
    cases read
    refine ⟨c,[],rfl,fun rest' _ => ?_⟩
    unfold classAtom?
    split
    · rename_i same
      exact absurd (List.cons.inj same).1 other
    · rename_i same
      cases same
      rfl
    · rename_i same
      cases same
  · cases read

def rangeTo? : Atom → Atom → Option CharSet
  | .char a,.char b => if a ≤ b then some (.range a b) else none
  | _,_ => none

def itemBehind? (first : Atom) : List Char → Option (CharSet × List Char)
  | [] => none
  | ['-'] => none
  | '-' :: next :: after =>
    if next = ']' ∨ next = '-' then first.chars?.map (·,'-' :: next :: after)
    else (classAtom? (next :: after)).bind fun found => (rangeTo? first found.1).map (·,found.2)
  | rest => first.chars?.map (·,rest)

theorem itemBehind_plain {first : Atom} (other : c ≠ '-') (u : List Char) : itemBehind? first (c :: u) = first.chars?.map (·,c :: u) := by
  unfold itemBehind?
  split
  · rename_i same
    cases same
  · rename_i same
    exact absurd (List.cons.inj same).1 other
  · rename_i same
    exact absurd (List.cons.inj same).1 other
  · rfl

theorem classItem_eq (s : List Char) : classItem? s = (classAtom? s).bind fun found => itemBehind? found.1 found.2 := by
  unfold classItem?
  cases classAtom? s with
  | none => rfl
  | some found =>
      obtain ⟨first,rest⟩ := found
      simp only [Option.bind_eq_bind,Option.bind_some]
      split
      · rfl
      · rfl
      · rename_i next after
        rw [itemBehind?]
        split
        · cases first.chars? <;> rfl
        · cases classAtom? (next :: after) with
          | none => rfl
          | some found =>
              obtain ⟨second,last⟩ := found
              simp only [Option.bind_some]
              split
              · rename_i a b last' same
                cases same
                rw [rangeTo?]
                split <;> rfl
              · rename_i kind _ _ other
                cases kind with
                | char a =>
                    cases second with
                    | char b => exact (other a b last rfl rfl).elim
                    | chars | assert => rfl
                | chars | assert => rfl
      · rename_i empty single dash
        cases rest with
        | nil => exact absurd rfl empty
        | cons c u =>
            have other : c ≠ '-' := by
              rintro rfl
              cases u with
              | nil => exact single rfl
              | cons next after => exact dash next after rfl
            rw [itemBehind_plain other]
            cases first.chars? <;> rfl

theorem itemBehind_taken {first : Atom} (read : itemBehind? first s = some (set,rest)) :
    ∃ w,s = w ++ rest ∧ ∀ rest',Alike rest rest' → Freer s (w ++ rest') ∧ itemBehind? first (w ++ rest') = some (set,rest') := by
  unfold itemBehind? at read
  split at read
  · cases read
  · cases read
  · rename_i next after
    split at read
    · rename_i last
      obtain ⟨_,known,same⟩ := Option.map_eq_some_iff.mp read
      cases same
      refine ⟨[],rfl,fun rest' alike => ⟨alike.freer,?_⟩⟩
      obtain ⟨_,_,u,same,rfl,second⟩ := alike
      cases same
      obtain ⟨after',rfl⟩ := List.head?_eq_some_iff.mp (second (by decide)).symm
      rw [List.nil_append,itemBehind?,if_pos last,known]
      rfl
    · rename_i further
      obtain ⟨⟨second,last⟩,atom,ranged⟩ := Option.bind_eq_some_iff.mp read
      obtain ⟨_,known,same⟩ := Option.map_eq_some_iff.mp ranged
      cases same
      obtain ⟨d,w,same,again⟩ := classAtom_taken atom
      obtain ⟨rfl,rfl⟩ := List.cons.inj same
      refine ⟨'-' :: next :: w,rfl,fun rest' alike => ⟨?_,?_⟩⟩
      · intro _ tail dash
        cases dash
      · have second' := again _ alike.freer
        rw [List.cons_append] at second'
        rw [List.cons_append,List.cons_append,itemBehind?,if_neg further,second',Option.bind_some,known]
        rfl
  · rename_i empty single dash
    obtain ⟨_,known,same⟩ := Option.map_eq_some_iff.mp read
    cases same
    refine ⟨[],rfl,fun rest' alike => ⟨alike.freer,?_⟩⟩
    obtain ⟨d,u,u',rfl,rfl,_⟩ := alike
    have other : d ≠ '-' := by
      rintro rfl
      cases u with
      | nil => exact single rfl
      | cons next after => exact dash next after rfl
    rw [List.nil_append,itemBehind_plain other,known]
    rfl

theorem classItem_taken (read : classItem? s = some (set,rest)) :
    ∃ c w,s = c :: w ++ rest ∧ ∀ rest',Alike rest rest' → classItem? (c :: w ++ rest') = some (set,rest') := by
  rw [classItem_eq] at read
  obtain ⟨⟨first,behind⟩,atom,found⟩ := Option.bind_eq_some_iff.mp read
  obtain ⟨c,v,rfl,again⟩ := classAtom_taken atom
  obtain ⟨w,rfl,again'⟩ := itemBehind_taken found
  refine ⟨c,v ++ w,by simp,fun rest' alike => ?_⟩
  obtain ⟨near,found'⟩ := again' rest' alike
  rw [List.cons_append,List.append_assoc,← List.cons_append,classItem_eq,again _ near]
  exact found'

theorem bracket_stays {after : List Char} (same : w ++ ']' :: rest = v ++ ']' :: after) (absent : ']' ∉ v) (rest' : List Char) :
    ∃ after',w ++ ']' :: rest' = v ++ ']' :: after' := by
  rcases List.append_eq_append_iff.mp same with ⟨u,rfl,tail⟩ | ⟨u,rfl,tail⟩
  · cases u with
    | nil => exact ⟨rest',by simp⟩
    | cons c u =>
        cases (List.cons.inj tail).1
        simp at absent
  · cases u with
    | nil => exact ⟨rest',by simp⟩
    | cons c u =>
        cases (List.cons.inj tail).1
        exact ⟨u ++ ']' :: rest',by simp⟩

theorem unnamed_closed (unnamed : named? ignoreCase (w ++ ']' :: rest) = none) (rest' : List Char) :
    named? ignoreCase (w ++ ']' :: rest') = none := by
  rw [Option.eq_none_iff_forall_ne_some]
  rintro ⟨set,after⟩ read
  obtain ⟨v,same,absent,again⟩ := named_closed read
  obtain ⟨after',spelled⟩ := bracket_stays same absent rest
  rw [spelled,again after'] at unnamed
  cases unnamed

def classOp? : Char → Option ClassOp
  | '&' => some .inter
  | '-' => some .minus
  | '~' => some .differ
  | _ => none

structure Plain (s : List Char) : Prop where
  opens : s.head? ≠ some '['
  closes : s.head? ≠ some ']'
  operates : ∀ c op,classOp? c = some op → ∀ tail,s ≠ c :: c :: tail

theorem Plain.alike (plain : Plain s) (alike : Alike s s') : Plain s' := by
  obtain ⟨c,u,u',rfl,rfl,second⟩ := alike
  refine ⟨plain.opens,plain.closes,fun d op operator tail same => ?_⟩
  cases same
  have first : c ≠ ']' := fun same => plain.closes (same ▸ rfl)
  obtain ⟨v,rfl⟩ := List.head?_eq_some_iff.mp (second first)
  exact plain.operates c op operator v rfl

variable {part : ClassPart} {top : OpenClass} {stack : List OpenClass} {op : ClassOp}

theorem classFrom_plain (plain : Plain s) (fuel : Nat) (found : ClassItems) :
    classFrom? ignoreCase (fuel + 1) (top :: stack) found s = (classItem? s).bind fun item =>
      classFrom? ignoreCase fuel (top :: stack) (found.add ⟨item.1,0⟩) item.2 := by
  rw [classFrom?.eq_def]
  dsimp only
  split
  · rfl
  · exact absurd rfl plain.closes
  · exact absurd rfl (plain.operates '&' .inter rfl _)
  · exact absurd rfl (plain.operates '-' .minus rfl _)
  · exact absurd rfl (plain.operates '~' .differ rfl _)
  · exact absurd rfl plain.opens
  · rfl

theorem classFrom_operator (operator : classOp? c = some op) (fuel : Nat) (found : ClassItems) (s : List Char) :
    classFrom? ignoreCase (fuel + 1) (top :: stack) found (c :: c :: s) =
      classFrom? ignoreCase fuel ({ top with left := some (op,top.operand ignoreCase found) } :: stack) .none s := by
  unfold classOp? at operator
  split at operator
  all_goals cases operator
  all_goals rfl

theorem classFrom_named (named : named? ignoreCase ('[' :: s) = some (set,rest)) (fuel : Nat) (found : ClassItems) :
    classFrom? ignoreCase (fuel + 1) (top :: stack) found ('[' :: s) = classFrom? ignoreCase fuel (top :: stack) (found.add ⟨set,0⟩) rest := by
  rw [classFrom?,named]

theorem classFrom_opens (unnamed : named? ignoreCase ('[' :: s) = none) (fuel : Nat) (found : ClassItems) :
    classFrom? ignoreCase (fuel + 1) (top :: stack) found ('[' :: s) = (openClass? found s).bind fun opened =>
      classFrom? ignoreCase fuel (opened.1 :: top :: stack) opened.2.1 opened.2.2 := by
  rw [classFrom?,unnamed]
  rfl

theorem class_shape (s : List Char) :
    (∃ tail,s = ']' :: tail) ∨ (∃ tail,s = '[' :: tail) ∨ (∃ c op tail,classOp? c = some op ∧ s = c :: c :: tail) ∨ Plain s := by
  by_cases closes : s.head? = some ']'
  · exact .inl (List.head?_eq_some_iff.mp closes)
  · by_cases opens : s.head? = some '['
    · exact .inr (.inl (List.head?_eq_some_iff.mp opens))
    · by_cases operates : ∃ c op tail,classOp? c = some op ∧ s = c :: c :: tail
      · exact .inr (.inr (.inl operates))
      · exact .inr (.inr (.inr ⟨opens,closes,fun c op operator tail same => operates ⟨c,op,tail,operator,same⟩⟩))

def ClosedBehind (ignoreCase : Bool) (stack : List OpenClass) (found : ClassItems) (part : ClassPart) (w : List Char) : Prop :=
  ∀ rest enough,w.length < enough → classFrom? ignoreCase enough stack found (w ++ ']' :: rest) = some (part,rest)

theorem closedBehind_last (top : OpenClass) (found : ClassItems) : ClosedBehind ignoreCase [top] found (top.close ignoreCase found) [] := by
  intro rest enough fits
  obtain ⟨f,rfl⟩ := Nat.exists_eq_succ_of_ne_zero (Nat.ne_zero_of_lt fits)
  rfl

theorem closedBehind_nested {found : ClassItems} {below : OpenClass}
    (behind : ClosedBehind ignoreCase (below :: stack) (top.outer.add (top.close ignoreCase found)) part w) :
    ClosedBehind ignoreCase (top :: below :: stack) found part (']' :: w) := by
  intro rest enough fits
  obtain ⟨f,rfl⟩ := Nat.exists_eq_succ_of_ne_zero (Nat.ne_zero_of_lt fits)
  exact behind rest f (by simpa using fits)

theorem closedBehind_operator {found : ClassItems} (operator : classOp? c = some op)
    (behind : ClosedBehind ignoreCase ({ top with left := some (op,top.operand ignoreCase found) } :: stack) .none part w) :
    ClosedBehind ignoreCase (top :: stack) found part (c :: c :: w) := by
  intro rest enough fits
  obtain ⟨f,rfl⟩ := Nat.exists_eq_succ_of_ne_zero (Nat.ne_zero_of_lt fits)
  rw [List.cons_append,List.cons_append,classFrom_operator operator]
  exact behind rest f (by simp only [List.length_cons] at fits; omega)

theorem closedBehind_named {found : ClassItems} (named : ∀ rest,named? ignoreCase ('[' :: v ++ ']' :: rest) = some (set,rest))
    (behind : ClosedBehind ignoreCase (top :: stack) (found.add ⟨set,0⟩) part w) :
    ClosedBehind ignoreCase (top :: stack) found part ('[' :: v ++ ']' :: w) := by
  intro rest enough fits
  obtain ⟨f,rfl⟩ := Nat.exists_eq_succ_of_ne_zero (Nat.ne_zero_of_lt fits)
  have spelled : '[' :: v ++ ']' :: w ++ ']' :: rest = '[' :: (v ++ ']' :: (w ++ ']' :: rest)) := by simp
  have known : named? ignoreCase ('[' :: (v ++ ']' :: (w ++ ']' :: rest))) = some (set,w ++ ']' :: rest) := named _
  rw [spelled,classFrom_named known]
  exact behind rest f (by simp only [List.length_append,List.length_cons] at fits; omega)

theorem closedBehind_opens {found items : ClassItems} {opened : OpenClass} {rest : List Char}
    (unnamed : named? ignoreCase ('[' :: (v ++ w) ++ ']' :: rest) = none)
    (opens : ∀ rest',Alike (w ++ ']' :: rest) rest' → openClass? found (v ++ rest') = some (opened,items,rest'))
    (behind : ClosedBehind ignoreCase (opened :: top :: stack) items part w) :
    ClosedBehind ignoreCase (top :: stack) found part ('[' :: (v ++ w)) := by
  intro rest' enough fits
  obtain ⟨f,rfl⟩ := Nat.exists_eq_succ_of_ne_zero (Nat.ne_zero_of_lt fits)
  have opens' := opens _ (alike_closed w rest rest')
  have unnamed' := unnamed_closed unnamed rest'
  rw [List.cons_append,List.append_assoc] at unnamed' ⊢
  rw [classFrom_opens unnamed',opens',Option.bind_some]
  exact behind rest' f (by simp only [List.length_append,List.length_cons] at fits; omega)

theorem closedBehind_item {found : ClassItems} {rest : List Char} (plain : Plain (c :: v ++ (w ++ ']' :: rest)))
    (item : ∀ rest',Alike (w ++ ']' :: rest) rest' → classItem? (c :: v ++ rest') = some (set,rest'))
    (behind : ClosedBehind ignoreCase (top :: stack) (found.add ⟨set,0⟩) part w) :
    ClosedBehind ignoreCase (top :: stack) found part (c :: v ++ w) := by
  intro rest' enough fits
  obtain ⟨f,rfl⟩ := Nat.exists_eq_succ_of_ne_zero (Nat.ne_zero_of_lt fits)
  have alike := alike_closed (c :: v ++ w) rest rest'
  have item' := item _ (alike_closed w rest rest')
  rw [List.append_assoc,List.append_assoc] at alike
  rw [List.append_assoc,classFrom_plain (plain.alike alike),item',Option.bind_some]
  exact behind rest' f (by simp only [List.length_append,List.length_cons] at fits; omega)

-- By induction on the fuel: before the bracket that closes the class every step takes the
-- same, whatever stands behind it.
theorem classFrom_closed (fuel : Nat) (stack : List OpenClass) (found : ClassItems) (s : List Char)
    (read : classFrom? ignoreCase fuel stack found s = some (part,rest)) :
    ∃ w,s = w ++ ']' :: rest ∧ ClosedBehind ignoreCase stack found part w := by
  induction fuel generalizing stack found s with
  | zero => cases read
  | succ fuel ih =>
      cases stack with
      | nil => cases read
      | cons top stack =>
          rcases class_shape s with ⟨tail,rfl⟩ | ⟨tail,rfl⟩ | ⟨c,op,tail,operator,rfl⟩ | plain
          · cases stack with
            | nil =>
                cases read
                exact ⟨[],rfl,closedBehind_last top found⟩
            | cons below stack =>
                obtain ⟨w,rfl,behind⟩ := ih _ _ _ read
                exact ⟨']' :: w,rfl,closedBehind_nested behind⟩
          · cases named : named? ignoreCase ('[' :: tail) with
            | some item =>
                rw [classFrom_named named] at read
                obtain ⟨w,same,behind⟩ := ih _ _ _ read
                obtain ⟨v,begun,_,again⟩ := named_closed named
                cases v with
                | nil => cases begun
                | cons d v =>
                    obtain ⟨rfl,rfl⟩ := List.cons.inj begun
                    exact ⟨'[' :: v ++ ']' :: w,by simp [same],closedBehind_named again behind⟩
            | none =>
                rw [classFrom_opens named] at read
                obtain ⟨⟨opened,items,after⟩,opens,read⟩ := Option.bind_eq_some_iff.mp read
                obtain ⟨w,rfl,behind⟩ := ih _ _ _ read
                obtain ⟨v,rfl,again⟩ := openClass_decided opens
                exact ⟨'[' :: (v ++ w),by simp,closedBehind_opens (by simpa using named) again behind⟩
          · rw [classFrom_operator operator] at read
            obtain ⟨w,rfl,behind⟩ := ih _ _ _ read
            exact ⟨c :: c :: w,rfl,closedBehind_operator operator behind⟩
          · rw [classFrom_plain plain] at read
            obtain ⟨⟨set,after⟩,item,read⟩ := Option.bind_eq_some_iff.mp read
            obtain ⟨w,rfl,behind⟩ := ih _ _ _ read
            obtain ⟨c,v,rfl,again⟩ := classItem_taken item
            exact ⟨c :: v ++ w,by simp,closedBehind_item plain again behind⟩

theorem class_decided (ignoreCase : Bool) : Decided Any (class? ignoreCase) := by
  intro s part rest read
  simp only [class?,Option.bind_eq_bind] at read
  obtain ⟨⟨opened,found,behind⟩,opens,read⟩ := Option.bind_eq_some_iff.mp read
  obtain ⟨w,rfl,again⟩ := classFrom_closed _ _ _ _ read
  obtain ⟨v,rfl,again'⟩ := openClass_decided opens
  refine ⟨v ++ (w ++ [']']),by simp,fun rest' _ => ?_⟩
  have opens' := again' _ (alike_closed w rest rest')
  rw [List.append_assoc,List.append_assoc,List.singleton_append,class?,opens']
  exact again rest' _ (by simp only [List.length_append]; omega)

end SharedTree.Pattern
