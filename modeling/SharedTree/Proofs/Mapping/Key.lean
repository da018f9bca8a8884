import SharedTree.Mapping.Basic

namespace SharedTree
namespace Key

theorem escape_cons (c : Char) (name : List Char) :
    escape (c :: name) = (if escapes c then ['\\',c] else [c]) ++ escape name := rfl

theorem plain_of_not_escapes (plain : escapes c = false) : c ≠ '\\' ∧ c ≠ '.' ∧ c ≠ '#' := by
  simpa [escapes,and_assoc] using plain

theorem cut_plain (plain : escapes c = false) (rest : List Char) :
    cut (c :: rest) = (cut rest).map fun found => (c :: found.1,found.2) := by
  obtain ⟨slash,dot,sign⟩ := plain_of_not_escapes plain
  rw [cut]
  · simp only [dot,sign,↓reduceIte]
    cases cut rest <;> rfl
  · simp [slash]
  · simp [slash]

theorem cut_escaped (special : escapes c = true) (rest : List Char) :
    cut ('\\' :: c :: rest) = (cut rest).map fun found => (c :: found.1,found.2) := by
  rw [cut,special]
  cases cut rest <;> rfl

theorem cut_escape (name rest : List Char) :
    cut (escape name ++ rest) = (cut rest).map fun found => (name ++ found.1,found.2) := by
  induction name with
  | nil => cases here : cut rest <;> simp [escape,here,Except.map]
  | cons c name ih =>
      rw [escape_cons]
      cases special : escapes c with
      | true =>
          simp only [↓reduceIte,List.cons_append,List.nil_append]
          rw [cut_escaped special,ih]
          cases cut rest <;> rfl
      | false =>
          simp only [Bool.false_eq_true,↓reduceIte,List.cons_append,List.nil_append]
          rw [cut_plain special,ih]
          cases cut rest <;> rfl

theorem decimal_digits (member : c ∈ decimal n) : c.isDigit = true :=
  Nat.isDigit_of_mem_toDigits (by decide) (by decide) member

theorem isDigit_eq (c : Char) : Decimal.isDigit c = c.isDigit := by
  simp [Decimal.isDigit,Char.isDigit,Char.le_def]

theorem decimal_without {c : Char} (other : c.isDigit = false) : c ∉ decimal n := by
  intro member
  rw [decimal_digits member] at other
  cases other

theorem value_decimal (n : Nat) : Decimal.value 0 (decimal n) = n := by
  have digits : Nat.ofDigitChars 10 (decimal n) 0 = n := Nat.ofDigitChars_ten_toDigits
  rwa [Nat.ofDigitChars_eq_foldl] at digits

theorem decimal_injective (same : decimal m = decimal n) : m = n := by
  rw [← value_decimal m,same,value_decimal]

theorem cut_component (name : List Char) (index : Nat) :
    cut (component name index) = .ok (name,if index = 0 then none else some (decimal index)) := by
  unfold component
  split
  · have whole := cut_escape name []
    simpa [cut,Except.map] using whole
  · have undotted : '.' ∉ decimal index := decimal_without rfl
    rw [cut_escape,cut]
    · simp [undotted,Except.map]
    · simp
    · simp

theorem index?_decimal (positive : index ≠ 0) (small : index < twoTo 64) :
    index? (some (decimal index)) = some index := by
  have natural : natural? (decimal index) = some index := by
    have digits : (decimal index).all Decimal.isDigit = true := by
      rw [List.all_eq_true]
      intro c member
      rw [isDigit_eq]
      exact decimal_digits member
    have filled : (decimal index).isEmpty = false := by
      simp [decimal]
    simp [natural?,digits,filled,value_decimal,small]
  have unsigned : ∀ rest,decimal index ≠ '+' :: rest := by
    intro rest same
    have absent : '+' ∉ decimal index := decimal_without rfl
    rw [same] at absent
    exact absent (.head _)
  unfold index?
  split
  · rename_i rest same
    cases same
  · rename_i digits same
    cases Option.some.inj same
    split
    · rename_i rest here
      exact absurd here (unsigned rest)
    · simp [natural,positive]

theorem read_component (name : List Char) (small : index < twoTo 64) :
    read (component name index) = .ok (name,index) := by
  rw [read,cut_component]
  by_cases first : index = 0
  · subst first
    simp [index?]
  · simp [first,index?_decimal first small]

theorem component_of_read {name : List Char} (found : read written = .ok (name,index)) : written = component name index := by
  unfold read at found
  split at found
  · cases found
  · split at found
    · cases found
    · split at found
      · rename_i spelled
        cases found
        exact spelled.symm
      · cases found

theorem component_injective (same : component a i = component b j) : a = b ∧ i = j := by
  have parts := congrArg cut same
  rw [cut_component,cut_component,Except.ok.injEq,Prod.mk.injEq] at parts
  refine ⟨parts.1,?_⟩
  by_cases left : i = 0 <;> by_cases right : j = 0 <;> simp [left,right] at parts ⊢
  exact decimal_injective parts.2

def first : List Char → List Char
  | '\\' :: c :: rest => '\\' :: c :: first rest
  | '.' :: _ => []
  | c :: rest => c :: first rest
  | [] => []

theorem first_plain (slash : c ≠ '\\') (dot : c ≠ '.') (rest : List Char) : first (c :: rest) = c :: first rest := by
  rw [first]
  · simp [slash]
  · simp [dot]

theorem first_escape (name rest : List Char) : first (escape name ++ rest) = escape name ++ first rest := by
  induction name with
  | nil => rfl
  | cons c name ih =>
      rw [escape_cons]
      cases special : escapes c with
      | true => simp [first,ih]
      | false =>
          obtain ⟨slash,dot,_⟩ := plain_of_not_escapes special
          simp [first_plain slash dot,ih]

theorem first_digits {digits : List Char} (all : ∀ c ∈ digits,c.isDigit = true) (rest : List Char) :
    first (digits ++ rest) = digits ++ first rest := by
  induction digits with
  | nil => rfl
  | cons c digits ih =>
      have digit := all c (.head _)
      have slash : c ≠ '\\' := by rintro rfl; cases digit
      have dot : c ≠ '.' := by rintro rfl; cases digit
      rw [List.cons_append,first_plain slash dot,ih fun d member => all d (.tail _ member),List.cons_append]

theorem first_component (name : List Char) (index : Nat) (rest : List Char) :
    first (component name index ++ rest) = component name index ++ first rest := by
  unfold component
  split
  · exact first_escape name rest
  · have digits := first_digits (fun c (member : c ∈ decimal index) => decimal_digits member) rest
    rw [List.append_assoc,first_escape,List.cons_append,first_plain (by decide) (by decide),digits]
    simp

end Key
end SharedTree
