import Mathlib.Data.List.DropRight
import Mathlib.Data.List.TakeDrop
import SharedTree.Proofs.Path.Written

namespace SharedTree.Path

variable {v w s : List Char} {p q : Predicate} {left right : Operand} {value : Value} {level : Level} {fuel : Nat}

theorem span_all {keeps : Char → Bool} (all : ∀ c ∈ w,keeps c = true) (stops : ∀ c ∈ s.head?,keeps c = false) :
    (w ++ s).span keeps = (w,s) := by
  rw [List.span_eq_takeWhile_dropWhile,List.takeWhile_append_of_pos all,List.dropWhile_append_of_pos all]
  cases s with
  | nil => simp
  | cons c rest => simp [stops c rfl]

theorem skip_blanks (blank : Blanks b) (s : List Char) : skip (b ++ s) = skip s := List.dropWhile_append_of_pos blank

theorem skip_cons (first : isSpace c = false) (s : List Char) : skip (c :: s) = c :: s := by simp [skip,first]

theorem skip_skip (s : List Char) : skip (skip s) = skip s := List.dropWhile_idempotent _ s

def enders : List Char := [' ','\t','\r','\n',')','<','>','=','!']

def Stops (s : List Char) : Prop := ∀ c ∈ s.head?,c ∈ enders

theorem enders_key (member : c ∈ enders) : isKeyChar c = false := by
  have each : (enders.all fun c => !isKeyChar c) = true := by decide +kernel
  simpa using List.all_eq_true.mp each c member

theorem enders_digit (member : c ∈ enders) : Decimal.isDigit c = false := by
  have each : (enders.all fun c => !Decimal.isDigit c) = true := by decide
  simpa using List.all_eq_true.mp each c member

theorem fractionPart?_stops (stops : Stops s) : fractionPart? s = none := by
  unfold fractionPart?
  split
  · exact absurd (stops _ rfl) (by decide)
  · rfl

theorem exponentPart?_stops (stops : Stops s) : exponentPart? s = none := by
  cases s with
  | nil => rfl
  | cons c rest =>
      have mark := stops c rfl
      have other : ¬ (c = 'e' ∨ c = 'E') := by
        rintro (rfl | rfl)
        · exact absurd mark (by decide)
        · exact absurd mark (by decide)
      unfold exponentPart?
      exact if_neg other

def foreign : List Char := [' ','\t','\r','\n','(','=']

theorem foreign_space (other : c ∉ foreign) : isSpace c = false := by
  simp only [foreign,List.mem_cons,List.not_mem_nil,or_false,not_or] at other
  simp [isSpace,other]

theorem digit_apart (digit : Decimal.isDigit c = true) : c ∉ '-' :: '\'' :: '"' :: '@' :: foreign := by
  intro other
  simp only [foreign,List.mem_cons,List.not_mem_nil,or_false] at other
  rcases other with rfl | rfl | rfl | rfl | rfl | rfl | rfl | rfl | rfl | rfl <;> cases digit

theorem natural_read (spelled : w ≠ []) (digits : ∀ c ∈ w,Decimal.isDigit c = true) (stops : Stops s)
    (fits : Decimal.value 0 w < twoTo 63) : numeralLiteral? (w ++ s) = some (.int (Decimal.value 0 w),s) := by
  have whole := span_all digits fun c member => enders_digit (stops c member)
  obtain ⟨d,rest,rfl⟩ := List.exists_cons_of_ne_nil spelled
  have unsigned : d ≠ '-' := fun same => digit_apart (digits d (.head _)) (by simp [same])
  rw [List.cons_append] at whole ⊢
  unfold numeralLiteral?
  split
  rename_i negative unread signed
  split at signed
  · rename_i same
    exact absurd (List.cons.inj same).1 unsigned
  · cases signed
    simp only [whole,fractionPart?_stops stops,exponentPart?_stops stops]
    simp [numeralValue,fits]

theorem negative_read (spelled : w ≠ []) (digits : ∀ c ∈ w,Decimal.isDigit c = true) (stops : Stops s)
    (fits : Decimal.value 0 w ≤ twoTo 63) :
    numeralLiteral? ('-' :: w ++ s) = some (.int (-(Decimal.value 0 w : Int)),s) := by
  have whole := span_all digits fun c member => enders_digit (stops c member)
  obtain ⟨d,rest,rfl⟩ := List.exists_cons_of_ne_nil spelled
  simp only [numeralLiteral?,List.cons_append] at whole ⊢
  simp only [whole,fractionPart?_stops stops,exponentPart?_stops stops]
  simp [numeralValue,fits]

theorem literal_read (text : LiteralText value w) (stops : Stops s) : literal? (w ++ s) = some (value,s) := by
  cases text with
  | null => rfl
  | yes => rfl
  | no => rfl
  | natural spelled digits fits =>
      have read := natural_read spelled digits stops fits
      obtain ⟨d,rest,rfl⟩ := List.exists_cons_of_ne_nil spelled
      have unquoted : ¬ (d = '\'' ∨ d = '"') := by
        have other := digit_apart (digits d (.head _))
        simp only [List.mem_cons,not_or] at other
        exact not_or.mpr ⟨other.2.1,other.2.2.1⟩
      rw [literal?,read,List.cons_append,quotedLiteral?,if_neg unquoted]
      rfl
  | negative spelled digits fits =>
      rw [literal?,negative_read spelled digits stops fits]
      rfl
  | @quoted mark text quote absent =>
      have inside : ∀ c ∈ text,(c != mark) = true := by
        intro c member
        rw [bne_iff_ne]
        rintro rfl
        exact absent member
      have closed : ∀ c ∈ (mark :: s).head?,(c != mark) = false := by simp
      have whole := span_all inside closed
      rw [List.cons_append,List.cons_append,List.append_assoc,List.singleton_append,literal?,quotedLiteral?,if_pos quote,whole]
      rfl

theorem literal_first (text : LiteralText value w) : ∃ c rest,w = c :: rest ∧ c ∉ '@' :: foreign := by
  cases text with
  | null => exact ⟨_,_,rfl,by decide⟩
  | yes => exact ⟨_,_,rfl,by decide⟩
  | no => exact ⟨_,_,rfl,by decide⟩
  | natural spelled digits fits =>
      obtain ⟨d,rest,rfl⟩ := List.exists_cons_of_ne_nil spelled
      have apart := digit_apart (digits d (.head _))
      simp only [List.mem_cons,not_or] at apart ⊢
      exact ⟨d,rest,rfl,apart.2.2.2⟩
  | negative spelled digits fits => exact ⟨_,_,rfl,by decide⟩
  | quoted quote absent =>
      refine ⟨_,_,rfl,?_⟩
      rcases quote with rfl | rfl <;> decide

theorem operand_first (text : OperandText left w) : ∃ c rest,w = c :: rest ∧ c ∉ foreign := by
  cases text with
  | key spelled all => exact ⟨_,_,rfl,by decide⟩
  | literal text =>
      obtain ⟨c,rest,same,apart⟩ := literal_first text
      exact ⟨c,rest,same,fun other => apart (.tail _ other)⟩

def Starts (w : List Char) : Prop := ∃ c rest,w = c :: rest ∧ isSpace c = false

theorem Starts.append (starts : Starts v) (w : List Char) : Starts (v ++ w) := by
  obtain ⟨c,rest,rfl,first⟩ := starts
  exact ⟨c,rest ++ w,rfl,first⟩

theorem Starts.skip_eq (starts : Starts w) (s : List Char) : skip (w ++ s) = w ++ s := by
  obtain ⟨c,rest,rfl,first⟩ := starts
  exact skip_cons first _

theorem Starts.length_pos (starts : Starts w) : 0 < w.length := by
  obtain ⟨c,rest,rfl,_⟩ := starts
  exact Nat.zero_lt_succ _

theorem OperandText.starts (text : OperandText left w) : Starts w := by
  obtain ⟨c,rest,same,other⟩ := operand_first text
  exact ⟨c,rest,same,foreign_space other⟩

theorem operand_read (text : OperandText left w) (stops : Stops s) : operand? (w ++ s) = some (left,s) := by
  cases text with
  | @key word spelled all =>
      have whole := span_all all fun c member => enders_key (stops c member)
      obtain ⟨c,rest,rfl⟩ := List.exists_cons_of_ne_nil spelled
      rw [operand?,List.cons_append,List.cons_append,attributeOperand?,whole]
      rfl
  | literal text =>
      have other : attributeOperand? (w ++ s) = none := by
        obtain ⟨c,rest,rfl,apart⟩ := literal_first text
        unfold attributeOperand?
        split
        · rename_i same
          cases (List.cons.inj same).1
          simp at apart
        · rfl
      rw [operand?,other,literal_read text stops]
      rfl

theorem comparison_sign {op : Comparison} (apart : s.head? ≠ some '=') : comparison? (op.sign ++ s) = some (op,s) := by
  have short : ∀ rest,s ≠ '=' :: rest := by
    rintro rest rfl
    exact apart rfl
  cases op with
  | equal => rfl
  | notEqual => rfl
  | atMost => rfl
  | atLeast => rfl
  | less => simp [Comparison.sign,comparison?]
  | greater => simp [Comparison.sign,comparison?]

theorem stops_sign (op : Comparison) (s : List Char) : Stops (op.sign ++ s) := by
  cases op <;> simp [Stops,enders,Comparison.sign]

theorem blank_ender (blank : isSpace c = true) : c ∈ enders := by
  simp only [isSpace,Bool.or_eq_true,beq_iff_eq] at blank
  rcases blank with ((rfl | rfl) | rfl) | rfl <;> decide

theorem stops_gap (blank : Blanks b) (apart : b ≠ []) (s : List Char) : Stops (b ++ s) := by
  obtain ⟨c,rest,rfl⟩ := List.exists_cons_of_ne_nil apart
  intro d first
  cases Option.some.inj first
  exact blank_ender (blank c (.head _))

theorem stops_blanks (blank : Blanks b) (stops : Stops s) : Stops (b ++ s) := by
  by_cases apart : b = []
  · rw [apart]
    exact stops
  · exact stops_gap blank apart s

theorem skip_sign (op : Comparison) (s : List Char) : skip (op.sign ++ s) = op.sign ++ s := by
  cases op <;> rfl

structure Ends (s : List Char) : Prop where
  stops : Stops s
  unrelated : comparison? (skip s) = none

theorem comparison_truthy (operand : OperandText left w) (ends : Ends s) :
    comparison (w ++ s) = .ok (.truthy left,skip s) := by
  have nothing : rightSide? (skip s) = none := by
    rw [rightSide?,skip_skip,ends.unrelated]
    rfl
  rw [comparison,operand.starts.skip_eq,operand_read operand ends.stops]
  simp only [nothing]

theorem comparison_compare {op : Comparison} (first : OperandText left v) (before : Blanks b) (after : Blanks c)
    (second : OperandText right w) (stops : Stops s) :
    comparison (v ++ b ++ op.sign ++ c ++ w ++ s) = .ok (.compare left op right,skip s) := by
  have apart : (c ++ (w ++ s)).head? ≠ some '=' := by
    cases c with
    | nil =>
        obtain ⟨d,rest,rfl,other⟩ := operand_first second
        intro same
        cases Option.some.inj same
        exact other (by decide)
    | cons d c =>
        intro same
        cases Option.some.inj same
        cases after '=' (.head _)
  have rest : rightSide? (skip (b ++ (op.sign ++ (c ++ (w ++ s))))) = some (op,right,skip s) := by
    rw [rightSide?,skip_skip,skip_blanks before,skip_sign,comparison_sign apart]
    simp only [Option.bind_eq_bind,Option.bind_some,skip_blanks after,second.starts.skip_eq,operand_read second stops]
    rfl
  simp only [List.append_assoc]
  rw [comparison,first.starts.skip_eq,operand_read first (stops_blanks before (stops_sign op _))]
  simp only [rest]

theorem PredicateText.starts (text : PredicateText level p w) : Starts w := by
  induction text with
  | truthy operand => exact operand.starts
  | compare first before after second => exact (((first.starts.append _).append _).append _).append _
  | group inner before after ih => exact ⟨'(',_,rfl,rfl⟩
  | term only ih => exact ih
  | and first before after apart second left right => exact (((left.append _).append _).append _).append _
  | conjunction only ih => exact ih
  | or first before after apart second left right => exact (((left.append _).append _).append _).append _

theorem connective?_skip (word : String) (s : List Char) : connective? word (skip s) = connective? word s := by
  rw [connective?,connective?,skip_skip]

theorem connective?_blanks (word : String) (blank : Blanks b) (s : List Char) :
    connective? word (b ++ s) = connective? word s := by
  rw [connective?,connective?,skip_blanks blank]

theorem ends_closed (blank : Blanks b) (s : List Char) : Ends (b ++ ')' :: s) := by
  refine ⟨stops_blanks blank (by simp [Stops,enders]),?_⟩
  rw [skip_blanks blank]
  rfl

theorem ends_joined {word : List Char} (known : word = ['a','n','d'] ∨ word = ['o','r']) (blank : Blanks b) (apart : b ≠ [])
    (s : List Char) : Ends (b ++ (word ++ s)) := by
  refine ⟨stops_gap blank apart _,?_⟩
  rw [skip_blanks blank]
  rcases known with rfl | rfl <;> rfl

-- How a text of a level is read. A term is read to its end; behind what a loop
-- starts with it goes on, and with enough fuel for all that is left of the text.
def Understood : Level → Predicate → List Char → Prop
  | .term,p,w => ∀ fuel s,4 * w.length ≤ fuel → Ends s → term fuel (w ++ s) = .ok (p,skip s)
  | .conjunction,p,w => ∀ fuel s,4 * w.length < fuel → Ends s →
      ∃ fewer,fuel ≤ fewer + w.length ∧ conjunction fuel (w ++ s) = .ok (moreAnd fewer p (skip s))
  | .disjunction,p,w => ∀ fuel s,4 * w.length + 1 < fuel → Ends s → connective? "and" s = none →
      ∃ fewer,fuel ≤ fewer + w.length ∧ disjunction fuel (w ++ s) = .ok (moreOr fewer p (skip s))

theorem moreAnd_stop (absent : connective? "and" s = none) (fuel : Nat) (p : Predicate) : moreAnd fuel p (skip s) = (p,skip s) := by
  cases fuel with
  | zero => rfl
  | succ fuel => rw [moreAnd,connective?_skip,absent]

theorem moreOr_stop (absent : connective? "or" s = none) (fuel : Nat) (p : Predicate) : moreOr fuel p (skip s) = (p,skip s) := by
  cases fuel with
  | zero => rfl
  | succ fuel => rw [moreOr,connective?_skip,absent]

theorem group_read (inner : Understood .disjunction p w) (starts : Starts w) (before : Blanks b) (after : Blanks c)
    (enough : 4 * w.length + 2 < fuel) : group fuel ('(' :: b ++ w ++ c ++ [')'] ++ s) = .ok (p,skip s) := by
  obtain ⟨fewer,rfl⟩ := Nat.exists_eq_add_of_le' (Nat.zero_lt_of_lt enough)
  have closed : connective? "and" (c ++ ')' :: s) = none := connective?_blanks "and" after _
  have last : connective? "or" (c ++ ')' :: s) = none := connective?_blanks "or" after _
  obtain ⟨fewest,_,read⟩ := inner fewer _ (by omega) (ends_closed after s) closed
  rw [moreOr_stop last,skip_blanks after,skip_cons rfl] at read
  have opened : parenthesis '(' ('(' :: b ++ w ++ c ++ [')'] ++ s) = .ok (w ++ (c ++ ')' :: s)) := by
    simp only [List.cons_append,List.append_assoc,List.nil_append]
    rw [parenthesis,skip_cons rfl]
    simp only [↓reduceIte,skip_blanks before,starts.skip_eq]
  rw [group,opened]
  simp only [read]
  rfl

theorem term_operand (operand : OperandText left v) (nonempty : 0 < fuel) (s : List Char) :
    term fuel (v ++ s) = comparison (v ++ s) := by
  obtain ⟨fewer,rfl⟩ := Nat.exists_eq_add_of_le' nonempty
  have ungrouped : ∃ fault,group fewer (v ++ s) = .error fault := by
    cases fewer with
    | zero => exact ⟨_,rfl⟩
    | succ fewest =>
        obtain ⟨c,rest,rfl,other⟩ := operand_first operand
        have opening : ¬ '(' = c := by
          rintro rfl
          exact other (by decide)
        refine ⟨.parenthesis (String.ofList (c :: rest ++ s)),?_⟩
        rw [group,parenthesis,operand.starts.skip_eq]
        simp only [List.cons_append,opening,↓reduceIte]
  obtain ⟨fault,failed⟩ := ungrouped
  rw [term,failed]

theorem understood_truthy (operand : OperandText left w) : Understood .term (.truthy left) w := by
  intro fuel s enough ends
  have nonempty := operand.starts.length_pos
  rw [term_operand operand (by omega),comparison_truthy operand ends]

theorem understood_compare {op : Comparison} (first : OperandText left v) (before : Blanks b) (after : Blanks c)
    (second : OperandText right w) : Understood .term (.compare left op right) (v ++ b ++ op.sign ++ c ++ w) := by
  intro fuel s enough ends
  have nonempty := first.starts.length_pos
  have read : comparison (v ++ b ++ op.sign ++ c ++ w ++ s) = .ok (.compare left op right,skip s) :=
    comparison_compare first before after second ends.stops
  simp only [List.length_append,List.append_assoc] at enough read ⊢
  rw [term_operand first (by omega),read]

theorem understood_group (inner : Understood .disjunction p w) (starts : Starts w) (before : Blanks b) (after : Blanks c) :
    Understood .term p ('(' :: b ++ w ++ c ++ [')']) := by
  intro fuel s enough ends
  simp only [List.length_append,List.length_cons,List.length_nil] at enough
  obtain ⟨fewer,rfl⟩ := Nat.exists_eq_add_of_le' (Nat.zero_lt_of_lt (show 0 < fuel by omega))
  rw [term,group_read inner starts before after (by omega)]

theorem understood_conjunction (only : Understood .term p w) (starts : Starts w) : Understood .conjunction p w := by
  intro fuel s enough ends
  have nonempty := starts.length_pos
  obtain ⟨fewer,rfl⟩ := Nat.exists_eq_add_of_le' (Nat.zero_lt_of_lt enough)
  refine ⟨fewer,by omega,?_⟩
  rw [conjunction,only fewer s (by omega) ends]

theorem understood_disjunction (only : Understood .conjunction p w) (starts : Starts w) : Understood .disjunction p w := by
  intro fuel s enough ends absent
  have nonempty := starts.length_pos
  obtain ⟨fewer,rfl⟩ := Nat.exists_eq_add_of_le' (Nat.zero_lt_of_lt enough)
  obtain ⟨fewest,_,read⟩ := only fewer s (by omega) ends
  refine ⟨fewer,by omega,?_⟩
  rw [disjunction,read,moreAnd_stop absent]

theorem understood_and (first : Understood .conjunction p v) (before : Blanks b) (after : Blanks c) (apart : b ≠ [] ∧ c ≠ [])
    (second : Understood .term q w) (starts : Starts w) :
    Understood .conjunction (.and p q) (v ++ b ++ ['a','n','d'] ++ c ++ w) := by
  intro fuel s enough ends
  simp only [List.length_append,List.length_cons,List.length_nil,List.append_assoc] at enough ⊢
  obtain ⟨left,bound,read⟩ := first fuel _ (by omega) (ends_joined (.inl rfl) before apart.1 (c ++ (w ++ s)))
  obtain ⟨fewer,rfl⟩ := Nat.exists_eq_add_of_le' (show 0 < left by omega)
  refine ⟨fewer,by omega,?_⟩
  have joined : connective? "and" (b ++ (['a','n','d'] ++ (c ++ (w ++ s)))) = some (c ++ (w ++ s)) :=
    connective?_blanks "and" before _
  rw [read,moreAnd,connective?_skip,joined]
  simp only [skip_blanks after,starts.skip_eq,second fewer s (by omega) ends]

theorem understood_or (first : Understood .disjunction p v) (before : Blanks b) (after : Blanks c) (apart : b ≠ [] ∧ c ≠ [])
    (second : Understood .conjunction q w) (starts : Starts w) :
    Understood .disjunction (.or p q) (v ++ b ++ ['o','r'] ++ c ++ w) := by
  intro fuel s enough ends absent
  simp only [List.length_append,List.length_cons,List.length_nil,List.append_assoc] at enough ⊢
  have other : connective? "and" (b ++ (['o','r'] ++ (c ++ (w ++ s)))) = none := connective?_blanks "and" before _
  obtain ⟨left,bound,read⟩ := first fuel _ (by omega) (ends_joined (.inr rfl) before apart.1 _) other
  obtain ⟨fewer,rfl⟩ := Nat.exists_eq_add_of_le' (show 0 < left by omega)
  obtain ⟨fewest,_,last⟩ := second fewer s (by omega) ends
  refine ⟨fewer,by omega,?_⟩
  have joined : connective? "or" (b ++ (['o','r'] ++ (c ++ (w ++ s)))) = some (c ++ (w ++ s)) :=
    connective?_blanks "or" before _
  rw [read,moreOr,connective?_skip,joined]
  simp only [skip_blanks after,starts.skip_eq,last,moreAnd_stop absent]

theorem PredicateText.understood (text : PredicateText level p w) : Understood level p w := by
  -- One case for each rule of writing; the level tells which reader takes the text.
  induction text with
  | truthy operand => exact understood_truthy operand
  | compare first before after second => exact understood_compare first before after second
  | group inner before after ih => exact understood_group ih inner.starts before after
  | term only ih => exact understood_conjunction ih only.starts
  | and first before after apart second left right => exact understood_and left before after apart right second.starts
  | conjunction only ih => exact understood_disjunction ih only.starts
  | or first before after apart second left right => exact understood_or left before after apart right second.starts

theorem predicate_read (text : PredicateText .disjunction p w) (before : Blanks b) (after : Blanks c) :
    predicate ('(' :: b ++ w ++ c ++ [')']) = .ok (p,[]) := by
  have enough : 4 * w.length + 2 < 5 * ('(' :: b ++ w ++ c ++ [')']).length + 5 := by
    simp only [List.length_append,List.length_cons]
    omega
  have read := group_read (s := []) text.understood text.starts before after enough
  rwa [List.append_nil] at read

theorem text_unique (first : PredicateText .disjunction p w) (second : PredicateText .disjunction q w) : p = q := by
  have same := (predicate_read first blanks_nil blanks_nil).symm.trans (predicate_read second blanks_nil blanks_nil)
  cases same
  rfl

end SharedTree.Path
