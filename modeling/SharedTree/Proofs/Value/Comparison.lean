import SharedTree.Proofs.Number.Rounding
import SharedTree.Selector.Basic

namespace SharedTree

open Binary64

namespace Comparison

def between (a b : Int) : Comparison → Prop
  | equal => a = b
  | notEqual => a ≠ b
  | less => a < b
  | atMost => a ≤ b
  | greater => b < a
  | atLeast => b ≤ a

instance (a b : Int) : (op : Comparison) → Decidable (op.between a b)
  | equal => inferInstanceAs (Decidable (a = b))
  | notEqual => inferInstanceAs (Decidable (a ≠ b))
  | less => inferInstanceAs (Decidable (a < b))
  | atMost => inferInstanceAs (Decidable (a ≤ b))
  | greater => inferInstanceAs (Decidable (b < a))
  | atLeast => inferInstanceAs (Decidable (b ≤ a))

end Comparison

namespace Value

theorem agrees_int (a b : Int) : (int a).agrees (int b) = true ↔ roundedInt a = roundedInt b := ofInt_same a b

theorem order_int (a b : Int) : (int a).order? (int b) = some (compare (roundedInt a) (roundedInt b)) := by
  have below := ofInt_lt a b
  have above := ofInt_lt b a
  have order : (int a).order? (int b) = some (compare (ofInt a).units (ofInt b).units) := rfl
  rw [order]
  congr 1
  rcases Int.lt_trichotomy (roundedInt a) (roundedInt b) with less | same | greater
  · rw [Int.compare_eq_lt.mpr less,Int.compare_eq_lt.mpr (below.mpr less)]
  · rw [Int.compare_eq_eq.mpr same,Int.compare_eq_eq.mpr (by omega)]
  · rw [Int.compare_eq_gt.mpr greater,Int.compare_eq_gt.mpr (above.mpr greater)]

end Value

namespace Comparison

theorem holds_int (a b : Int) (op : Comparison) :
    op.holds (.int a) (.int b) = true ↔ op.between (roundedInt a) (roundedInt b) := by
  have order := Value.order_int a b
  cases op with
  | equal => exact Value.agrees_int a b
  | notEqual => rw [holds,Bool.not_eq_true',between,Ne,← Value.agrees_int,Bool.not_eq_true]
  | less => simp [holds,between,order,Int.compare_eq_lt]
  | atMost =>
    simp only [holds,between,order,Option.some_beq_some,Bool.or_eq_true,beq_iff_eq,Int.compare_eq_lt,Int.compare_eq_eq]
    omega
  | greater => simp [holds,between,order,Int.compare_eq_gt]
  | atLeast =>
    simp only [holds,between,order,Option.some_beq_some,Bool.or_eq_true,beq_iff_eq,Int.compare_eq_gt,Int.compare_eq_eq]
    omega

theorem between_rounded (a b : Int) : (∀ op : Comparison, op.between (roundedInt a) (roundedInt b) ↔ op.between a b) ↔
    (roundedInt a = roundedInt b → a = b) := by
  constructor
  · exact fun exact_ => (exact_ equal).mp
  · intro apart op
    have upward : a ≤ b → roundedInt a ≤ roundedInt b := roundedInt_mono
    have downward : b ≤ a → roundedInt b ≤ roundedInt a := roundedInt_mono
    have same : a = b → roundedInt a = roundedInt b := congrArg _
    cases op <;> simp only [between] <;> omega

theorem apart_of_small {a b : Int} (small : a.natAbs < twoTo 53 ∨ b.natAbs < twoTo 53) (same : roundedInt a = roundedInt b) :
    a = b := by
  rcases Int.lt_trichotomy a b with less | equal | greater
  · exact absurd same (Int.ne_of_lt (roundedInt_lt small less))
  · exact equal
  · exact absurd same (Int.ne_of_gt (roundedInt_lt small.symm greater))

end Comparison

theorem Predicate.compare_int {attributes : Attributes} {left right : Operand} (op : Comparison)
    (first : left.value? attributes = some (.int a)) (second : right.value? attributes = some (.int b)) :
    (compare left op right).holds attributes = true ↔ op.between (roundedInt a) (roundedInt b) := by
  rw [holds,first,second]
  exact op.holds_int a b

theorem Segment.equals_int {attributes : Attributes} (bare : Option String) (held : attributes.get? key = some (.int a)) :
    (equals key (.int b) bare).acceptsAttributes attributes = true ↔ roundedInt a = roundedInt b := by
  have textless : (Value.int a).string? = none := rfl
  rw [acceptsAttributes,held,← Value.agrees_int]
  cases bare <;> simp [textless]

theorem Selector.attributeEquals_int {p : Position} (held : p.attributes.get? key = some (.int a)) :
    (attributeEquals key (.int b)).selects p = true ↔ roundedInt a = roundedInt b := by
  rw [← Value.agrees_int,attributeEquals,selects,verdict,held]
  rfl

-- Every comparison of two integers is one of the integers they are rounded to,
-- which are nearest to them and in their order. It is right for every operator
-- exactly if different integers stay apart, and they do if one of them has at
-- most 53 bits.
theorem Comparison.integers_exact (a b : Int) :
    (∀ (attributes : Attributes) (left right : Operand) (op : Comparison), left.value? attributes = some (.int a) →
      right.value? attributes = some (.int b) →
      ((Predicate.compare left op right).holds attributes = true ↔ op.between (roundedInt a) (roundedInt b))) ∧
    (∀ (attributes : Attributes) (key : String) (bare : Option String), attributes.get? key = some (.int a) →
      ((Segment.equals key (.int b) bare).acceptsAttributes attributes = true ↔ roundedInt a = roundedInt b)) ∧
    (∀ (p : Position) (key : String), p.attributes.get? key = some (.int a) →
      ((Selector.attributeEquals key (.int b)).selects p = true ↔ roundedInt a = roundedInt b)) ∧
    2 * (roundedInt a - a).natAbs ≤ spacing a.natAbs ∧ (a ≤ b → roundedInt a ≤ roundedInt b) ∧
    ((∀ op : Comparison, op.between (roundedInt a) (roundedInt b) ↔ op.between a b) ↔ (roundedInt a = roundedInt b → a = b)) ∧
    (a.natAbs < twoTo 53 ∨ b.natAbs < twoTo 53 →
      ∀ op : Comparison, op.between (roundedInt a) (roundedInt b) ↔ op.between a b) :=
  ⟨fun _ _ _ op => Predicate.compare_int op,fun _ _ bare => Segment.equals_int bare,
    fun _ _ => Selector.attributeEquals_int,roundedInt_near a,roundedInt_mono,between_rounded a b,
    fun small => (between_rounded a b).mpr (apart_of_small small)⟩

-- The least two integers that are taken for one: neither is less than the other.
theorem Comparison.integers_taken_for_one :
    ((Predicate.compare (.attribute "k") .equal (.literal (.int 9007199254740993))).holds
      (Table.ofList [("k",.int 9007199254740992)]) = true) ∧
    ¬ ((Predicate.compare (.attribute "k") .less (.literal (.int 9007199254740993))).holds
      (Table.ofList [("k",.int 9007199254740992)]) = true) ∧
    ((Predicate.compare (.attribute "k") .less (.literal (.int 9007199254740993))).holds
      (Table.ofList [("k",.int 9007199254740991)]) = true) := by
  obtain ⟨one,_⟩ := integers_exact 9007199254740992 9007199254740993
  obtain ⟨below,_,_,_,_,_,small⟩ := integers_exact 9007199254740991 9007199254740993
  refine ⟨(one _ _ _ .equal rfl rfl).mpr (by decide),fun less => ?_,?_⟩
  · have between : Comparison.less.between _ _ := (one _ _ _ .less rfl rfl).mp less
    exact absurd between (by decide)
  · exact (below _ _ _ .less rfl rfl).mpr ((small (.inl (by decide)) .less).mpr (by decide))

end SharedTree
