import SharedTree.Proofs.Number.Range
import SharedTree.Proofs.Path.Understood

namespace SharedTree.Path

def Digits (w : List Char) : Prop := w ≠ [] ∧ ∀ c ∈ w,Decimal.isDigit c = true

structure Numeral where
  negative : Bool
  whole : List Char
  fraction : Option (List Char)
  exponent : Option (Bool × List Char)

namespace Numeral

def value (n : Numeral) : Value := numeralValue n.negative n.whole n.fraction n.exponent

def decimal (n : Numeral) : Decimal :=
  decimalOf n.negative n.whole (n.fraction.getD []) (n.exponent.getD (false,[])).1 (n.exponent.getD (false,[])).2

end Numeral

inductive FractionText : Option (List Char) → List Char → Prop
  | none : FractionText none []
  | point (digits : Digits w) : FractionText (some w) ('.' :: w)

inductive ExponentText : Option (Bool × List Char) → List Char → Prop
  | none : ExponentText none []
  | bare (letter : e = 'e' ∨ e = 'E') (digits : Digits w) : ExponentText (some (false,w)) (e :: w)
  | plus (letter : e = 'e' ∨ e = 'E') (digits : Digits w) : ExponentText (some (false,w)) (e :: '+' :: w)
  | minus (letter : e = 'e' ∨ e = 'E') (digits : Digits w) : ExponentText (some (true,w)) (e :: '-' :: w)

inductive NumeralText : Numeral → List Char → Prop
  | positive (whole : Digits v) (fraction : FractionText f w) (exponent : ExponentText e x) :
      NumeralText ⟨false,v,f,e⟩ (v ++ (w ++ x))
  | negative (whole : Digits v) (fraction : FractionText f w) (exponent : ExponentText e x) :
      NumeralText ⟨true,v,f,e⟩ ('-' :: (v ++ (w ++ x)))

inductive LiteralSpelling : Value → List Char → Prop
  | null : LiteralSpelling .null ['n','u','l','l']
  | yes : LiteralSpelling (.bool true) ['t','r','u','e']
  | no : LiteralSpelling (.bool false) ['f','a','l','s','e']
  | numeral (text : NumeralText n w) : LiteralSpelling n.value w
  | quoted (quote : mark = '\'' ∨ mark = '"') (absent : mark ∉ w) :
      LiteralSpelling (.string (String.ofList w)) (mark :: w ++ [mark])

variable {s w rest : List Char} {n : Numeral} {value : Value}

theorem head_dropWhile (keeps : Char → Bool) (s : List Char) : ∀ c ∈ (s.dropWhile keeps).head?,keeps c = false := by
  intro c first
  have ends := List.head?_dropWhile_not keeps s
  rw [Option.mem_def.mp first] at ends
  simpa using ends

theorem span_taken {keeps : Char → Bool} (cut : s.span keeps = (w,rest)) :
    s = w ++ rest ∧ (∀ c ∈ w,keeps c = true) ∧ ∀ c ∈ rest.head?,keeps c = false := by
  rw [List.span_eq_takeWhile_dropWhile] at cut
  obtain ⟨rfl,rfl⟩ := Prod.mk.inj cut
  exact ⟨List.takeWhile_append_dropWhile.symm,fun c member => List.mem_takeWhile_imp member,head_dropWhile keeps s⟩

theorem span_until {mark : Char} (absent : mark ∉ w) (rest : List Char) : (w ++ mark :: rest).span (· != mark) = (w,mark :: rest) := by
  refine span_all (fun c member => ?_) (by simp)
  simpa using fun same : c = mark => absent (same ▸ member)

theorem until_taken {c mark : Char} (cut : s.span (· != mark) = (w,c :: rest)) : s = w ++ mark :: rest ∧ c = mark ∧ mark ∉ w := by
  obtain ⟨whole,before,ends⟩ := span_taken cut
  have same : c = mark := by simpa using ends c rfl
  subst same
  exact ⟨whole,rfl,fun member => by simpa using before c member⟩

theorem digits_taken (cut : s.span Decimal.isDigit = (c :: w,rest)) : s = c :: w ++ rest ∧ Digits (c :: w) := by
  obtain ⟨same,digits,_⟩ := span_taken cut
  exact ⟨same,List.cons_ne_nil c w,digits⟩

theorem fractionPart?_taken (read : fractionPart? s = some (w,rest)) :
    ∃ x,s = x ++ rest ∧ FractionText (some w) x := by
  unfold fractionPart? at read
  split at read
  · rename_i tail
    split at read
    · cases read
    · rename_i none_
      have cut : tail.span Decimal.isDigit = (w,rest) := Option.some.inj read
      cases w with
      | nil => exact absurd cut (none_ rest)
      | cons c v =>
          obtain ⟨rfl,digits⟩ := digits_taken cut
          exact ⟨_,rfl,.point digits⟩
  · cases read

theorem exponentPart?_taken {e : Bool × List Char} (read : exponentPart? s = some (e,rest)) :
    ∃ x,s = x ++ rest ∧ ExponentText (some e) x := by
  unfold exponentPart? at read
  split at read
  · split at read
    · rename_i letter
      split at read
      rename_i below tail signed
      split at read
      · cases read
      · rename_i digits after none_ cut
        cases read
        obtain ⟨c,v,rfl⟩ := List.exists_cons_of_ne_nil none_
        obtain ⟨rfl,digits⟩ := digits_taken cut
        split at signed
        · cases signed
          exact ⟨_,rfl,.minus letter digits⟩
        · cases signed
          exact ⟨_,rfl,.plus letter digits⟩
        · cases signed
          exact ⟨_,rfl,.bare letter digits⟩
    · cases read
  · cases read

def withFraction (s : List Char) : Option (List Char) × List Char :=
  match fractionPart? s with
  | some (digits,rest) => (some digits,rest)
  | none => (none,s)

def withExponent (s : List Char) : Option (Bool × List Char) × List Char :=
  match exponentPart? s with
  | some (found,rest) => (some found,rest)
  | none => (none,s)

theorem withFraction_taken (read : withFraction s = (f,rest)) : ∃ x,s = x ++ rest ∧ FractionText f x := by
  unfold withFraction at read
  split at read
  · rename_i found
    cases read
    exact fractionPart?_taken found
  · cases read
    exact ⟨[],rfl,.none⟩

theorem withExponent_taken (read : withExponent s = (e,rest)) : ∃ x,s = x ++ rest ∧ ExponentText e x := by
  unfold withExponent at read
  split at read
  · rename_i found
    cases read
    exact exponentPart?_taken found
  · cases read
    exact ⟨[],rfl,.none⟩

def unsigned? (negative : Bool) (s : List Char) : Option (Value × List Char) :=
  match s.span Decimal.isDigit with
  | ([],_) => none
  | (whole,rest) =>
    let (fraction,rest) := withFraction rest
    let (exponent,rest) := withExponent rest
    some (numeralValue negative whole fraction exponent,rest)

theorem numeralLiteral?_minus (s : List Char) : numeralLiteral? ('-' :: s) = unsigned? true s := rfl

theorem numeralLiteral?_unsigned (bare : ∀ tail,s ≠ '-' :: tail) : numeralLiteral? s = unsigned? false s := by
  unfold numeralLiteral?
  split
  rename_i negative rest signed
  split at signed
  · rename_i tail
    exact absurd rfl (bare tail)
  · cases signed
    rfl

theorem unsigned?_taken (read : unsigned? negative s = some (value,rest)) :
    ∃ v w x f e,s = v ++ (w ++ x) ++ rest ∧ Digits v ∧ FractionText f w ∧ ExponentText e x ∧
      numeralValue negative v f e = value := by
  unfold unsigned? at read
  split at read
  · cases read
  · rename_i whole behind none_ cut
    cases pointed : withFraction behind with
    | mk f after =>
        cases raised : withExponent after with
        | mk e last =>
            simp only [pointed,raised,Option.some.injEq,Prod.mk.injEq] at read
            obtain ⟨rfl,rfl⟩ := read
            obtain ⟨c,v,rfl⟩ := List.exists_cons_of_ne_nil none_
            obtain ⟨rfl,digits⟩ := digits_taken cut
            obtain ⟨w,rfl,point⟩ := withFraction_taken pointed
            obtain ⟨x,rfl,power⟩ := withExponent_taken raised
            exact ⟨_,w,x,f,e,by simp,digits,point,power,rfl⟩

theorem numeralLiteral?_taken (read : numeralLiteral? s = some (value,rest)) :
    ∃ n x,s = x ++ rest ∧ NumeralText n x ∧ n.value = value := by
  by_cases minus : ∃ tail,s = '-' :: tail
  · obtain ⟨tail,rfl⟩ := minus
    rw [numeralLiteral?_minus] at read
    obtain ⟨v,w,x,f,e,rfl,whole,fraction,exponent,same⟩ := unsigned?_taken read
    exact ⟨_,_,rfl,.negative whole fraction exponent,same⟩
  · rw [numeralLiteral?_unsigned (not_exists.mp minus)] at read
    obtain ⟨v,w,x,f,e,rfl,whole,fraction,exponent,same⟩ := unsigned?_taken read
    exact ⟨_,_,rfl,.positive whole fraction exponent,same⟩

theorem word?_taken {word : String} (read : word? word s = some rest) : s = word.toList ++ rest := by
  unfold word? at read
  split at read
  · rename_i first
    cases read
    obtain ⟨behind,rfl⟩ := List.isPrefixOf_iff_prefix.mp first
    rw [List.drop_left]
  · cases read

theorem wordLiteral?_taken (read : wordLiteral? s = some (value,rest)) : ∃ x,s = x ++ rest ∧ LiteralSpelling value x := by
  simp only [wordLiteral?,Option.orElse_eq_orElse,Option.orElse_eq_or,Option.or_eq_some_iff,Option.map_eq_some_iff,
    Prod.mk.injEq] at read
  rcases read with ⟨_,found,rfl,rfl⟩ | ⟨_,⟨_,found,rfl,rfl⟩ | ⟨_,_,found,rfl,rfl⟩⟩
  · exact ⟨_,word?_taken found,.null⟩
  · exact ⟨_,word?_taken found,.yes⟩
  · exact ⟨_,word?_taken found,.no⟩

theorem quotedLiteral?_taken (read : quotedLiteral? s = some (value,rest)) : ∃ x,s = x ++ rest ∧ LiteralSpelling value x := by
  unfold quotedLiteral? at read
  split at read
  · rename_i mark tail
    split at read
    · rename_i quote
      split at read
      · cases read
      · rename_i text last behind cut
        cases read
        obtain ⟨rfl,rfl,absent⟩ := until_taken cut
        exact ⟨last :: text ++ [last],by simp,.quoted quote absent⟩
    · cases read
  · cases read

theorem literal?_taken (read : literal? s = some (value,rest)) : ∃ x,s = x ++ rest ∧ LiteralSpelling value x := by
  simp only [literal?,Option.orElse_eq_orElse,Option.orElse_eq_or,Option.or_eq_some_iff] at read
  rcases read with quoted | ⟨_,numeral | ⟨_,word⟩⟩
  · exact quotedLiteral?_taken quoted
  · obtain ⟨n,x,same,text,rfl⟩ := numeralLiteral?_taken numeral
    exact ⟨x,same,.numeral text⟩
  · exact wordLiteral?_taken word

def NoDigit (s : List Char) : Prop := ∀ c ∈ s.head?,Decimal.isDigit c = false

theorem ExponentText.noDigit (text : ExponentText e x) : NoDigit x := by
  cases text with
  | none => simp [NoDigit]
  | bare letter _ => rcases letter with rfl | rfl <;> simp [NoDigit,Decimal.isDigit]
  | plus letter _ => rcases letter with rfl | rfl <;> simp [NoDigit,Decimal.isDigit]
  | minus letter _ => rcases letter with rfl | rfl <;> simp [NoDigit,Decimal.isDigit]

theorem FractionText.noDigit (text : FractionText f w) (behind : NoDigit s) : NoDigit (w ++ s) := by
  cases text with
  | none => exact behind
  | point _ => simp [NoDigit,Decimal.isDigit]

theorem withFraction_read (text : FractionText f w) (behind : ExponentText e x) : withFraction (w ++ x) = (f,x) := by
  cases text with
  | none =>
      have unread : fractionPart? x = none := by
        cases behind with
        | none => rfl
        | bare letter _ => rcases letter with rfl | rfl <;> rfl
        | plus letter _ => rcases letter with rfl | rfl <;> rfl
        | minus letter _ => rcases letter with rfl | rfl <;> rfl
      simp only [withFraction,List.nil_append,unread]
  | @point w digits =>
      have whole := span_all digits.2 behind.noDigit
      obtain ⟨c,v,rfl⟩ := List.exists_cons_of_ne_nil digits.1
      rw [List.cons_append,withFraction,fractionPart?,whole]

theorem Digits.unsigned (digits : Digits v) (s tail : List Char) : v ++ s ≠ '-' :: tail := by
  obtain ⟨c,v,rfl⟩ := List.exists_cons_of_ne_nil digits.1
  intro same
  cases (List.cons.inj same).1
  cases digits.2 '-' (.head _)

theorem span_digits (digits : Digits w) : w.span Decimal.isDigit = (w,[]) := by
  have whole := span_all (s := []) digits.2 (by simp)
  rwa [List.append_nil] at whole

theorem withExponent_read (text : ExponentText e x) : withExponent x = (e,[]) := by
  cases text with
  | none => rfl
  | @bare mark w letter digits =>
      have whole := span_digits digits
      obtain ⟨c,v,rfl⟩ := List.exists_cons_of_ne_nil digits.1
      have digit := digits.2 c (.head _)
      rw [withExponent,exponentPart?,if_pos letter]
      · simp only [whole]
      · intro rest same
        cases (List.cons.inj same).1
        cases digit
      · intro rest same
        cases (List.cons.inj same).1
        cases digit
  | @plus mark w letter digits =>
      have whole := span_digits digits
      obtain ⟨c,v,rfl⟩ := List.exists_cons_of_ne_nil digits.1
      rw [withExponent,exponentPart?,if_pos letter]
      simp only [whole]
  | @minus mark w letter digits =>
      have whole := span_digits digits
      obtain ⟨c,v,rfl⟩ := List.exists_cons_of_ne_nil digits.1
      rw [withExponent,exponentPart?,if_pos letter]
      simp only [whole]

theorem unsigned_read (whole : Digits v) (fraction : FractionText f w) (exponent : ExponentText e x) (negative : Bool) :
    unsigned? negative (v ++ (w ++ x)) = some (numeralValue negative v f e,[]) := by
  have cut := span_all whole.2 (fraction.noDigit exponent.noDigit)
  obtain ⟨c,v,rfl⟩ := List.exists_cons_of_ne_nil whole.1
  simp only [unsigned?,cut,withFraction_read fraction exponent,withExponent_read exponent]

theorem numeralLiteral?_read (text : NumeralText n w) : numeralLiteral? w = some (n.value,[]) := by
  cases text with
  | positive whole fraction exponent =>
      rw [numeralLiteral?_unsigned (whole.unsigned _)]
      exact unsigned_read whole fraction exponent false
  | negative whole fraction exponent => exact unsigned_read whole fraction exponent true

theorem NumeralText.first (text : NumeralText n w) : ∃ c rest,w = c :: rest ∧ (c = '-' ∨ Decimal.isDigit c = true) := by
  cases text with
  | positive whole fraction exponent =>
      obtain ⟨c,v,rfl⟩ := List.exists_cons_of_ne_nil whole.1
      exact ⟨c,_,rfl,.inr (whole.2 c (.head _))⟩
  | negative whole fraction exponent => exact ⟨'-',_,rfl,.inl rfl⟩

theorem NumeralText.unquoted (text : NumeralText n w) : quotedLiteral? w = none := by
  obtain ⟨c,rest,rfl,known⟩ := text.first
  have other : ¬ (c = '\'' ∨ c = '"') := by
    rintro (rfl | rfl) <;> simp [Decimal.isDigit] at known
  rw [quotedLiteral?,if_neg other]

theorem literal?_read (text : LiteralSpelling value w) : literal? w = some (value,[]) := by
  cases text with
  | null => rfl
  | yes => rfl
  | no => rfl
  | numeral text =>
      rw [literal?,text.unquoted,numeralLiteral?_read text]
      rfl
  | quoted quote absent => simpa using literal_read (.quoted quote absent) (s := []) (by simp [Stops])

theorem literal?_whole : literal? w = some (value,[]) ↔ LiteralSpelling value w := by
  constructor
  · intro read
    obtain ⟨x,same,text⟩ := literal?_taken read
    rw [List.append_nil] at same
    rwa [same]
  · exact literal?_read

theorem LiteralText.spelling (text : LiteralText value w) : LiteralSpelling value w := by
  have read := literal_read text (s := []) (by simp [Stops])
  rw [List.append_nil] at read
  exact literal?_whole.mp read

theorem not_beyond_whole (below : Decimal.value 0 w ≤ twoTo 63) : ¬ (decimalOf negative w [] false []).Beyond := by
  have small : twoTo 63 < Binary64.ceiling := by decide +kernel
  have digits : (decimalOf negative w [] false []).digits = Decimal.value 0 w := by rw [decimalOf,List.append_nil]
  have unscaled : (decimalOf negative w [] false []).exponent = 0 := rfl
  have one : tenTo (-0 : Int).toNat = 1 ∧ tenTo (0 : Int).toNat = 1 := ⟨rfl,rfl⟩
  rw [Decimal.Beyond,digits,unscaled,one.1,one.2,Nat.mul_one,Nat.mul_one]
  exact Nat.not_le.mpr (Nat.lt_of_le_of_lt below small)

theorem Numeral.value_null (n : Numeral) : n.value = .null ↔ n.decimal.Beyond := by
  rcases n with ⟨negative,whole,fraction,exponent⟩
  rw [Numeral.value,numeralValue]
  dsimp only
  by_cases plain : fraction.isNone = true ∧ exponent.isNone = true ∧
      if negative = true then Decimal.value 0 whole ≤ twoTo 63 else Decimal.value 0 whole < twoTo 63
  · rw [if_pos plain]
    obtain ⟨point,power,fits⟩ := plain
    rw [Option.isNone_iff_eq_none] at point power
    subst point power
    have below : Decimal.value 0 whole ≤ twoTo 63 := by
      split at fits
      · exact fits
      · exact Nat.le_of_lt fits
    refine ⟨fun same => ?_,fun beyond => absurd beyond (not_beyond_whole below)⟩
    cases same
  · rw [if_neg plain,← Decimal.nearest?_none,Numeral.decimal]
    dsimp only
    split
    · rename_i x read
      rw [read,iff_false_intro (Option.some_ne_none x),iff_false]
      intro same
      cases same
    · rename_i read
      rw [read]
      exact ⟨fun _ => rfl,fun _ => rfl⟩

theorem spelling_null : LiteralSpelling .null w ↔ w = ['n','u','l','l'] ∨ ∃ n,NumeralText n w ∧ n.decimal.Beyond := by
  constructor
  · intro text
    generalize same : Value.null = value at text
    cases text with
    | null => exact .inl rfl
    | yes => cases same
    | no => cases same
    | numeral text => exact .inr ⟨_,text,(Numeral.value_null _).mp same.symm⟩
    | quoted quote absent => cases same
  · rintro (rfl | ⟨n,text,beyond⟩)
    · exact .null
    · have null_ := (Numeral.value_null n).mpr beyond
      rw [← null_]
      exact .numeral text

end SharedTree.Path
