import SharedTree.Path.Filter
import SharedTree.Proofs.Mapping.Key

namespace SharedTree

def Comparison.sign : Comparison → List Char
  | .equal => ['=','=']
  | .notEqual => ['!','=']
  | .less => ['<']
  | .atMost => ['<','=']
  | .greater => ['>']
  | .atLeast => ['>','=']

namespace Path

def Blanks (b : List Char) : Prop := ∀ c ∈ b,isSpace c = true

-- A quoted text holds anything but its quote, and a number has any number of leading zeros.
inductive LiteralText : Value → List Char → Prop
  | null : LiteralText .null ['n','u','l','l']
  | yes : LiteralText (.bool true) ['t','r','u','e']
  | no : LiteralText (.bool false) ['f','a','l','s','e']
  | natural (spelled : w ≠ []) (digits : ∀ c ∈ w,Decimal.isDigit c = true) (fits : Decimal.value 0 w < twoTo 63) :
      LiteralText (.int (Decimal.value 0 w)) w
  | negative (spelled : w ≠ []) (digits : ∀ c ∈ w,Decimal.isDigit c = true) (fits : Decimal.value 0 w ≤ twoTo 63) :
      LiteralText (.int (-(Decimal.value 0 w : Int))) ('-' :: w)
  | quoted (quote : mark = '\'' ∨ mark = '"') (absent : mark ∉ w) :
      LiteralText (.string (String.ofList w)) (mark :: w ++ [mark])

inductive OperandText : Operand → List Char → Prop
  | key (spelled : w ≠ []) (word : ∀ c ∈ w,isKeyChar c = true) :
      OperandText (.attribute (String.ofList w)) ('@' :: '.' :: w)
  | literal (text : LiteralText value w) : OperandText (.literal value) w

-- The levels say where a group needs its parentheses: a conjunction joins terms, a disjunction
-- joins conjunctions, both to the left.
inductive Level where
  | term
  | conjunction
  | disjunction

inductive PredicateText : Level → Predicate → List Char → Prop
  | truthy (operand : OperandText left w) : PredicateText .term (.truthy left) w
  | compare (first : OperandText left v) (before : Blanks b) (after : Blanks c) (second : OperandText right w) :
      PredicateText .term (.compare left op right) (v ++ b ++ op.sign ++ c ++ w)
  | group (inner : PredicateText .disjunction p w) (before : Blanks b) (after : Blanks c) :
      PredicateText .term p ('(' :: b ++ w ++ c ++ [')'])
  | term (only : PredicateText .term p w) : PredicateText .conjunction p w
  | and (first : PredicateText .conjunction p v) (before : Blanks b) (after : Blanks c) (apart : b ≠ [] ∧ c ≠ [])
      (second : PredicateText .term q w) : PredicateText .conjunction (.and p q) (v ++ b ++ ['a','n','d'] ++ c ++ w)
  | conjunction (only : PredicateText .conjunction p w) : PredicateText .disjunction p w
  | or (first : PredicateText .disjunction p v) (before : Blanks b) (after : Blanks c) (apart : b ≠ [] ∧ c ≠ [])
      (second : PredicateText .conjunction q w) : PredicateText .disjunction (.or p q) (v ++ b ++ ['o','r'] ++ c ++ w)

end Path

-- What a filter has a literal for: no floats, no collections, no text with both quotes.
def Value.Writable : Value → Prop
  | .null | .bool _ => True
  | .number (.int n) => -(twoTo 63 : Int) ≤ n ∧ n < (twoTo 63 : Int)
  | .string s => ¬ ('\'' ∈ s.toList ∧ '"' ∈ s.toList)
  | .number (.float _) | .array _ | .object _ => False

def Operand.Writable : Operand → Prop
  | .attribute key => key.toList ≠ [] ∧ ∀ c ∈ key.toList,Path.isKeyChar c = true
  | .literal value => value.Writable

def Predicate.Writable : Predicate → Prop
  | .or p q | .and p q => p.Writable ∧ q.Writable
  | .compare left _ right => left.Writable ∧ right.Writable
  | .truthy operand => operand.Writable

namespace Path

variable {w : List Char} {p : Predicate} {operand : Operand} {value : Value} {level : Level}

theorem decimal_text (n : Nat) : Key.decimal n ≠ [] ∧ (∀ c ∈ Key.decimal n,Decimal.isDigit c = true) := by
  refine ⟨by simp [Key.decimal],?_⟩
  intro c member
  rw [Key.isDigit_eq]
  exact Key.decimal_digits member

theorem int_text (n : Int) (low : -(twoTo 63 : Int) ≤ n) (high : n < (twoTo 63 : Int)) : ∃ w,LiteralText (.int n) w := by
  obtain ⟨spelled,digits⟩ := decimal_text n.natAbs
  have read := Key.value_decimal n.natAbs
  rcases Int.natAbs_eq n with same | same
  · have text := LiteralText.natural spelled digits (by rw [read]; omega)
    rw [read,← same] at text
    exact ⟨_,text⟩
  · have text := LiteralText.negative spelled digits (by rw [read]; omega)
    rw [read,← same] at text
    exact ⟨_,text⟩

theorem literal_text : (∃ w,LiteralText value w) ↔ value.Writable := by
  constructor
  · intro given
    obtain ⟨w,text⟩ := given
    cases text with
    | null => trivial
    | yes => trivial
    | no => trivial
    | natural spelled digits fits => exact ⟨by omega,by omega⟩
    | negative spelled digits fits =>
        have positive := twoTo_pos 63
        exact ⟨by omega,by omega⟩
    | quoted quote absent =>
        rintro ⟨single,double⟩
        rw [String.toList_ofList] at single double
        rcases quote with rfl | rfl
        · exact absent single
        · exact absent double
  · intro writable
    match value with
    | .null => exact ⟨_,.null⟩
    | .bool true => exact ⟨_,.yes⟩
    | .bool false => exact ⟨_,.no⟩
    | .number (.int n) => exact int_text n writable.1 writable.2
    | .string s =>
        rw [← String.ofList_toList (s := s)]
        by_cases single : '\'' ∈ s.toList
        · exact ⟨_,.quoted (.inr rfl) fun double => writable ⟨single,double⟩⟩
        · exact ⟨_,.quoted (.inl rfl) single⟩

theorem operand_text : (∃ w,OperandText operand w) ↔ operand.Writable := by
  constructor
  · intro given
    obtain ⟨w,text⟩ := given
    cases text with
    | key spelled word =>
        rw [Operand.Writable,String.toList_ofList]
        exact ⟨spelled,word⟩
    | literal text => exact literal_text.mp ⟨w,text⟩
  · intro writable
    match operand with
    | .attribute key =>
        rw [← String.ofList_toList (s := key)]
        exact ⟨_,.key writable.1 writable.2⟩
    | .literal value =>
        obtain ⟨w,text⟩ := literal_text.mpr writable
        exact ⟨w,.literal text⟩

theorem PredicateText.writable (text : PredicateText level p w) : p.Writable := by
  induction text with
  | truthy operand => exact operand_text.mp ⟨_,operand⟩
  | compare first before after second => exact ⟨operand_text.mp ⟨_,first⟩,operand_text.mp ⟨_,second⟩⟩
  | group inner before after ih => exact ih
  | term only ih => exact ih
  | and first before after apart second left right => exact ⟨left,right⟩
  | conjunction only ih => exact ih
  | or first before after apart second left right => exact ⟨left,right⟩

theorem blanks_nil : Blanks [] := by simp [Blanks]

theorem blanks_space : Blanks [' '] := by simp [Blanks,isSpace]

theorem PredicateText.grouped (text : PredicateText .disjunction p w) : ∃ w,PredicateText .term p w :=
  ⟨_,.group text blanks_nil blanks_nil⟩

theorem Writable.term_text (writable : p.Writable) : ∃ w,PredicateText .term p w := by
  induction p with
  | or p q left right =>
      obtain ⟨v,first⟩ := left writable.1
      obtain ⟨w,second⟩ := right writable.2
      exact (PredicateText.or (.conjunction (.term first)) blanks_space blanks_space (by simp) (.term second)).grouped
  | and p q left right =>
      obtain ⟨v,first⟩ := left writable.1
      obtain ⟨w,second⟩ := right writable.2
      exact (PredicateText.conjunction (.and (.term first) blanks_space blanks_space (by simp) second)).grouped
  | compare left op right =>
      obtain ⟨v,first⟩ := operand_text.mpr writable.1
      obtain ⟨w,second⟩ := operand_text.mpr writable.2
      exact ⟨_,.compare first blanks_nil blanks_nil second⟩
  | truthy operand =>
      obtain ⟨w,text⟩ := operand_text.mpr writable
      exact ⟨w,.truthy text⟩

theorem predicate_text : (∃ w,PredicateText .disjunction p w) ↔ p.Writable := by
  constructor
  · intro given
    obtain ⟨w,text⟩ := given
    exact text.writable
  · intro writable
    obtain ⟨w,text⟩ := Writable.term_text writable
    exact ⟨w,.conjunction (.term text)⟩

end Path
end SharedTree
