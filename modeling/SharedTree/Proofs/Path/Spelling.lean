import SharedTree.Proofs.Path.Numeral

namespace SharedTree

def Predicate.operands : Predicate → List Operand
  | .or p q | .and p q => p.operands ++ q.operands
  | .compare left _ right => [left,right]
  | .truthy operand => [operand]

namespace Path

inductive OperandSpelling : Operand → List Char → Prop
  | key (spelled : w ≠ []) (word : ∀ c ∈ w,isKeyChar c = true) :
      OperandSpelling (.attribute (String.ofList w)) ('@' :: '.' :: w)
  | literal (text : LiteralSpelling value w) : OperandSpelling (.literal value) w

abbrev Operands := List (Operand × List Char)

-- The grammar of the written predicates with blanks wherever they are skipped and with all
-- literals; it keeps the text of each operand.
inductive PredicateSpelling : Level → Predicate → Operands → List Char → Prop
  | truthy (before : Blanks b) (only : OperandSpelling left v) (after : Blanks c) :
      PredicateSpelling .term (.truthy left) [(left,v)] (b ++ v ++ c)
  | compare (before : Blanks b) (first : OperandSpelling left v) (behind : Blanks c) (ahead : Blanks d)
      (second : OperandSpelling right w) (after : Blanks e) :
      PredicateSpelling .term (.compare left op right) [(left,v),(right,w)] (b ++ v ++ c ++ op.sign ++ d ++ w ++ e)
  | group (before : Blanks b) (opened : Blanks c) (inner : PredicateSpelling .disjunction p operands w) (closed : Blanks d)
      (after : Blanks e) : PredicateSpelling .term p operands (b ++ '(' :: c ++ w ++ d ++ ')' :: e)
  | term (only : PredicateSpelling .term p operands w) : PredicateSpelling .conjunction p operands w
  | and (first : PredicateSpelling .conjunction p left v) (before : Blanks b) (after : Blanks c)
      (second : PredicateSpelling .term q right w) :
      PredicateSpelling .conjunction (.and p q) (left ++ right) (v ++ b ++ ['a','n','d'] ++ c ++ w)
  | conjunction (only : PredicateSpelling .conjunction p operands w) : PredicateSpelling .disjunction p operands w
  | or (first : PredicateSpelling .disjunction p left v) (before : Blanks b) (after : Blanks c)
      (second : PredicateSpelling .conjunction q right w) :
      PredicateSpelling .disjunction (.or p q) (left ++ right) (v ++ b ++ ['o','r'] ++ c ++ w)

variable {s v w rest : List Char} {p q : Predicate} {operand : Operand} {operands : Operands} {op : Comparison} {level : Level}
  {fuel : Nat}

theorem PredicateSpelling.operands_eq (text : PredicateSpelling level p operands w) : p.operands = operands.map Prod.fst := by
  induction text with
  | truthy => rfl
  | compare => rfl
  | group _ _ _ _ _ ih => exact ih
  | term _ ih => exact ih
  | and _ _ _ _ left right => rw [Predicate.operands,left,right,List.map_append]
  | conjunction _ ih => exact ih
  | or _ _ _ _ left right => rw [Predicate.operands,left,right,List.map_append]

theorem PredicateSpelling.each (text : PredicateSpelling level p operands w) : ∀ pair ∈ operands,OperandSpelling pair.1 pair.2 := by
  induction text with
  | truthy _ only _ => exact List.forall_mem_singleton.mpr only
  | compare _ first _ _ second _ => exact List.forall_mem_cons.mpr ⟨first,List.forall_mem_singleton.mpr second⟩
  | group _ _ _ _ _ ih => exact ih
  | term _ ih => exact ih
  | and _ _ _ _ left right => exact List.forall_mem_append.mpr ⟨left,right⟩
  | conjunction _ ih => exact ih
  | or _ _ _ _ left right => exact List.forall_mem_append.mpr ⟨left,right⟩

theorem skip_taken (s : List Char) : ∃ b,s = b ++ skip s ∧ Blanks b :=
  ⟨s.takeWhile isSpace,List.takeWhile_append_dropWhile.symm,fun _ member => List.mem_takeWhile_imp member⟩

theorem attributeOperand?_taken (read : attributeOperand? s = some (operand,rest)) :
    ∃ w,s = w ++ rest ∧ OperandSpelling operand w := by
  unfold attributeOperand? at read
  split at read
  · split at read
    · cases read
    · rename_i key behind nonempty cut
      cases read
      obtain ⟨rfl,word,_⟩ := span_taken cut
      exact ⟨_,rfl,.key nonempty word⟩
  · cases read

theorem operand?_taken (read : operand? s = some (operand,rest)) : ∃ w,s = w ++ rest ∧ OperandSpelling operand w := by
  simp only [operand?,Option.orElse_eq_orElse,Option.orElse_eq_or,Option.or_eq_some_iff,Option.map_eq_some_iff,Prod.exists,
    Prod.mk.injEq] at read
  rcases read with key | ⟨_,value,behind,found,rfl,rfl⟩
  · exact attributeOperand?_taken key
  · obtain ⟨w,same,text⟩ := literal?_taken found
    exact ⟨w,same,.literal text⟩

theorem comparison?_taken (read : comparison? s = some (op,rest)) : s = op.sign ++ rest := by
  unfold comparison? at read
  split at read
  all_goals cases read
  all_goals rfl

theorem rightSide?_taken (read : rightSide? s = some (op,operand,rest)) :
    ∃ b c w d,s = b ++ op.sign ++ c ++ w ++ d ++ rest ∧ Blanks b ∧ Blanks c ∧ OperandSpelling operand w ∧ Blanks d := by
  simp only [rightSide?,Option.bind_eq_bind,Option.bind_eq_some_iff,Option.pure_def,Option.some.injEq,Prod.exists,
    Prod.mk.injEq] at read
  obtain ⟨_,behind,signed,_,left,found,rfl,rfl,rfl⟩ := read
  obtain ⟨b,same,before⟩ := skip_taken s
  obtain ⟨c,same',ahead⟩ := skip_taken behind
  obtain ⟨d,same'',after⟩ := skip_taken left
  obtain ⟨w,found,text⟩ := operand?_taken found
  rw [comparison?_taken signed] at same
  refine ⟨b,c,w,d,?_,before,ahead,text,after⟩
  rw [same,same',found]
  simp only [List.append_assoc,← same'']

theorem connective?_taken (read : connective? word s = some rest) : ∃ b,s = b ++ word.toList ++ rest ∧ Blanks b := by
  obtain ⟨b,same,blank⟩ := skip_taken s
  rw [word?_taken read] at same
  exact ⟨b,by rw [same,List.append_assoc],blank⟩

theorem parenthesis_taken (read : parenthesis mark s = .ok rest) : ∃ b c,s = b ++ mark :: c ++ rest ∧ Blanks b ∧ Blanks c := by
  obtain ⟨b,same,before⟩ := skip_taken s
  unfold parenthesis at read
  split at read
  · rename_i d behind first
    split at read
    · rename_i equal
      cases read
      obtain ⟨c,same',after⟩ := skip_taken behind
      refine ⟨b,c,?_,before,after⟩
      rw [same,first,equal,List.append_assoc,List.cons_append,← same']
    · cases read
  · cases read

def Takes (level : Level) (read : List Char → Read Predicate) : Prop :=
  ∀ s p rest,read s = .ok (p,rest) → ∃ operands w,s = w ++ rest ∧ PredicateSpelling level p operands w

def Prolongs (level : Level) (read : Predicate → List Char → Predicate × List Char) : Prop :=
  ∀ p s q rest,read p s = (q,rest) → ∀ operands v,PredicateSpelling level p operands v →
    ∃ more w,s = w ++ rest ∧ PredicateSpelling level q (operands ++ more) (v ++ w)

theorem takes_comparison : Takes .term comparison := by
  intro s p rest read
  obtain ⟨b,same,before⟩ := skip_taken s
  unfold comparison at read
  split at read
  · cases read
  · rename_i left behind found
    obtain ⟨v,taken,first⟩ := operand?_taken found
    obtain ⟨c,behind_eq,after⟩ := skip_taken behind
    dsimp only at read
    rw [taken,behind_eq] at same
    split at read
    · rename_i op right last sided
      cases read
      obtain ⟨d,e,w,f,skipped,more,ahead,second,ends⟩ := rightSide?_taken sided
      have between : Blanks (c ++ d) := List.forall_mem_append.mpr ⟨after,more⟩
      refine ⟨_,_,?_,.compare before first between ahead second ends⟩
      rw [same,skipped]
      simp only [List.append_assoc]
    · cases read
      refine ⟨_,_,?_,.truthy before first after⟩
      rw [same]
      simp only [List.append_assoc]

theorem takes_group (inner : Takes .disjunction (disjunction fuel)) : Takes .term (group (fuel + 1)) := by
  intro s p rest read
  rw [group] at read
  split at read
  · cases read
  · rename_i behind opened
    split at read
    · cases read
    · rename_i q left found
      split at read
      · cases read
      · rename_i last closed
        cases read
        obtain ⟨b,c,rfl,before,ahead⟩ := parenthesis_taken opened
        obtain ⟨operands,w,rfl,text⟩ := inner _ _ _ found
        obtain ⟨d,e,rfl,behind,after⟩ := parenthesis_taken closed
        refine ⟨operands,_,?_,.group before ahead text behind after⟩
        simp only [List.append_assoc,List.cons_append]

theorem takes_term (grouped : Takes .term (group fuel)) : Takes .term (term (fuel + 1)) := by
  intro s p rest read
  rw [term] at read
  split at read
  · rename_i found same
    cases read
    exact grouped _ _ _ same
  · exact takes_comparison _ _ _ read

theorem takes_conjunction (first : Takes .term (term fuel)) (more : Prolongs .conjunction (moreAnd fuel)) :
    Takes .conjunction (conjunction (fuel + 1)) := by
  intro s p rest read
  rw [conjunction] at read
  split at read
  · cases read
  · rename_i q behind found
    obtain ⟨operands,v,rfl,text⟩ := first _ _ _ found
    obtain ⟨others,w,rfl,prolonged⟩ := more _ _ _ _ (Except.ok.inj read) _ _ (.term text)
    exact ⟨_,_,(List.append_assoc ..).symm,prolonged⟩

theorem takes_disjunction (first : Takes .conjunction (conjunction fuel)) (more : Prolongs .disjunction (moreOr fuel)) :
    Takes .disjunction (disjunction (fuel + 1)) := by
  intro s p rest read
  rw [disjunction] at read
  split at read
  · cases read
  · rename_i q behind found
    obtain ⟨operands,v,rfl,text⟩ := first _ _ _ found
    obtain ⟨others,w,rfl,prolonged⟩ := more _ _ _ _ (Except.ok.inj read) _ _ (.conjunction text)
    exact ⟨_,_,(List.append_assoc ..).symm,prolonged⟩

theorem prolongs_nothing (text : PredicateSpelling level p operands v) (s : List Char) :
    ∃ more w,s = w ++ s ∧ PredicateSpelling level p (operands ++ more) (v ++ w) := ⟨[],[],rfl,by simpa using text⟩

theorem prolongs_and (next : Takes .term (term fuel)) (more : Prolongs .conjunction (moreAnd fuel)) :
    Prolongs .conjunction (moreAnd (fuel + 1)) := by
  intro p s q rest read operands v text
  rw [moreAnd] at read
  split at read
  · cases read
    exact prolongs_nothing text s
  · rename_i behind joined
    split at read
    · cases read
      exact prolongs_nothing text s
    · rename_i right left found
      obtain ⟨b,rfl,before⟩ := connective?_taken joined
      obtain ⟨c,same,after⟩ := skip_taken behind
      obtain ⟨second,w,taken,spelled⟩ := next _ _ _ found
      obtain ⟨others,x,rfl,prolonged⟩ := more _ _ _ _ read _ _ (.and text before after spelled)
      refine ⟨second ++ others,b ++ ['a','n','d'] ++ c ++ w ++ x,?_,by simpa only [List.append_assoc] using prolonged⟩
      rw [same,taken]
      simp

theorem prolongs_or (next : Takes .conjunction (conjunction fuel)) (more : Prolongs .disjunction (moreOr fuel)) :
    Prolongs .disjunction (moreOr (fuel + 1)) := by
  intro p s q rest read operands v text
  rw [moreOr] at read
  split at read
  · cases read
    exact prolongs_nothing text s
  · rename_i behind joined
    split at read
    · cases read
      exact prolongs_nothing text s
    · rename_i right left found
      obtain ⟨b,rfl,before⟩ := connective?_taken joined
      obtain ⟨c,same,after⟩ := skip_taken behind
      obtain ⟨second,w,taken,spelled⟩ := next _ _ _ found
      obtain ⟨others,x,rfl,prolonged⟩ := more _ _ _ _ read _ _ (.or text before after spelled)
      refine ⟨second ++ others,b ++ ['o','r'] ++ c ++ w ++ x,?_,by simpa only [List.append_assoc] using prolonged⟩
      rw [same,taken]
      simp

-- All readers at once, by induction on the fuel they are given.
structure Spells (fuel : Nat) : Prop where
  group : Takes .term (group fuel)
  term : Takes .term (term fuel)
  conjunction : Takes .conjunction (conjunction fuel)
  disjunction : Takes .disjunction (disjunction fuel)
  moreAnd : Prolongs .conjunction (moreAnd fuel)
  moreOr : Prolongs .disjunction (moreOr fuel)

theorem spells (fuel : Nat) : Spells fuel := by
  induction fuel with
  | zero =>
      refine ⟨?_,?_,?_,?_,?_,?_⟩
      · intro s p rest read
        cases read
      · intro s p rest read
        cases read
      · intro s p rest read
        cases read
      · intro s p rest read
        cases read
      · intro p s q rest read operands v text
        cases read
        exact prolongs_nothing text s
      · intro p s q rest read operands v text
        cases read
        exact prolongs_nothing text s
  | succ fuel ih => exact ⟨takes_group ih.disjunction,takes_term ih.group,takes_conjunction ih.term ih.moreAnd,
      takes_disjunction ih.conjunction ih.moreOr,prolongs_and ih.term ih.moreAnd,prolongs_or ih.conjunction ih.moreOr⟩

theorem predicate_taken (read : predicate s = .ok (p,rest)) : ∃ operands w,s = w ++ rest ∧ PredicateSpelling .term p operands w :=
  (spells _).group _ _ _ read

end Path
end SharedTree
