import Mathlib.Tactic.Ring
import SharedTree.Number.Decimal
import SharedTree.Proofs.Number.Rounding

namespace SharedTree

theorem tenTo_add (m n : Nat) : tenTo (m + n) = tenTo m * tenTo n := Nat.pow_add 10 m n

theorem tenTo_mono (bound : m ≤ n) : tenTo m ≤ tenTo n := Nat.pow_le_pow_right (by decide) bound

namespace Binary64

-- The greatest number and half a unit, `(2 ^ 53 - 1 / 2) * 2 ^ 971`.
def ceiling : Nat := (twoTo 54 - 1) * twoTo 970

variable {num den k : Nat} {e f : Int}

theorem below_mono (raised : e ≤ f) (below : num * twoTo (-e).toNat < k * (den * twoTo e.toNat)) :
    num * twoTo (-f).toNat < k * (den * twoTo f.toNat) := by
  have left : twoTo (-f).toNat ≤ twoTo (-e).toNat := twoTo_mono (by omega)
  have right : twoTo e.toNat ≤ twoTo f.toNat := twoTo_mono (by omega)
  calc num * twoTo (-f).toNat ≤ num * twoTo (-e).toNat := Nat.mul_le_mul_left _ left
    _ < k * (den * twoTo e.toNat) := below
    _ ≤ k * (den * twoTo f.toNat) := Nat.mul_le_mul_left _ (Nat.mul_le_mul_left _ right)

-- The first guess of the exponent is right or one too great.
theorem guess_bounds (positive : num ≠ 0) (divisor : den ≠ 0) (guess : e = (num.log2 : Int) - (den.log2 : Int) - 52) :
    twoTo 51 * (den * twoTo e.toNat) ≤ num * twoTo (-e).toNat ∧ num * twoTo (-e).toNat < twoTo 53 * (den * twoTo e.toNat) := by
  have low := twoTo_log2 positive
  have high := lt_twoTo_log2 num
  have low' := twoTo_log2 divisor
  have high' := lt_twoTo_log2 den
  constructor
  · have split_ : twoTo 51 * (twoTo (den.log2 + 1) * twoTo e.toNat) = twoTo num.log2 * twoTo (-e).toNat := by
      rw [← twoTo_add,← twoTo_add,← twoTo_add]
      congr 1
      omega
    calc twoTo 51 * (den * twoTo e.toNat) ≤ twoTo 51 * (twoTo (den.log2 + 1) * twoTo e.toNat) :=
          Nat.mul_le_mul_left _ (Nat.mul_le_mul_right _ (Nat.le_of_lt high'))
      _ = twoTo num.log2 * twoTo (-e).toNat := split_
      _ ≤ num * twoTo (-e).toNat := Nat.mul_le_mul_right _ low
  · have split_ : twoTo (num.log2 + 1) * twoTo (-e).toNat = twoTo 53 * (twoTo den.log2 * twoTo e.toNat) := by
      rw [← twoTo_add,← twoTo_add,← twoTo_add]
      congr 1
      omega
    calc num * twoTo (-e).toNat < twoTo (num.log2 + 1) * twoTo (-e).toNat := Nat.mul_lt_mul_of_pos_right high (twoTo_pos _)
      _ = twoTo 53 * (twoTo den.log2 * twoTo e.toNat) := split_
      _ ≤ twoTo 53 * (den * twoTo e.toNat) := Nat.mul_le_mul_left _ (Nat.mul_le_mul_right _ low')

theorem quotient_doubled (num den : Nat) (e : Int) :
    (num * twoTo (-(e - 1)).toNat = num * twoTo (-e).toNat ∧ den * twoTo e.toNat = den * twoTo (e - 1).toNat * 2) ∨
      (num * twoTo (-(e - 1)).toNat = num * twoTo (-e).toNat * 2 ∧ den * twoTo e.toNat = den * twoTo (e - 1).toNat) := by
  rcases Int.lt_or_le 0 e with positive | negative
  · have raised : e.toNat = (e - 1).toNat + 1 := by omega
    have none_ : (-(e - 1)).toNat = (-e).toNat := by omega
    exact .inl ⟨by rw [none_],by rw [raised,twoTo_succ,Nat.mul_assoc]⟩
  · have raised : (-(e - 1)).toNat = (-e).toNat + 1 := by omega
    have none_ : (e - 1).toNat = e.toNat := by omega
    exact .inr ⟨by rw [raised,twoTo_succ,Nat.mul_assoc],by rw [none_]⟩

theorem twoTo_scaled (n : Nat) : twoTo 52 * n = 2 * (twoTo 51 * n) ∧ twoTo 53 * n = 4 * (twoTo 51 * n) := by
  rw [show twoTo 52 = 2 * twoTo 51 from rfl,show twoTo 53 = 4 * twoTo 51 from rfl,Nat.mul_assoc,Nat.mul_assoc]
  exact ⟨rfl,rfl⟩

theorem roundingExponent_bounds (positive : num ≠ 0) (divisor : den ≠ 0) (own : roundingExponent num den = e) :
    num * twoTo (-e).toNat < twoTo 53 * (den * twoTo e.toNat) ∧
      (leastExponent < e → twoTo 52 * (den * twoTo e.toNat) ≤ num * twoTo (-e).toNat) := by
  have guessed := guess_bounds positive divisor rfl
  unfold roundingExponent at own
  dsimp only at own
  generalize (num.log2 : Int) - (den.log2 : Int) - 52 = g at guessed own
  have scaled : 0 < den * twoTo g.toNat := Nat.mul_pos (Nat.pos_of_ne_zero divisor) (twoTo_pos _)
  split at own
  · rename_i low
    rw [Nat.div_lt_iff_lt_mul scaled,halfLimit] at low
    have here := twoTo_scaled (den * twoTo g.toNat)
    have next := twoTo_scaled (den * twoTo (g - 1).toNat)
    have bounds : num * twoTo (-(g - 1)).toNat < twoTo 53 * (den * twoTo (g - 1).toNat) ∧
        twoTo 52 * (den * twoTo (g - 1).toNat) ≤ num * twoTo (-(g - 1)).toNat := by
      rcases quotient_doubled num den g with ⟨upper,lower⟩ | ⟨upper,lower⟩
      · rw [lower,← Nat.mul_assoc] at here low guessed
        omega
      · rw [lower] at here low guessed
        omega
    exact ⟨below_mono (by omega) bounds.1,fun above => by rw [← own,Int.max_eq_right (by omega)]; exact bounds.2⟩
  · rename_i high
    rw [Nat.not_lt,Nat.le_div_iff_mul_le scaled,halfLimit] at high
    exact ⟨below_mono (by omega) guessed.2,fun above => by rw [← own,Int.max_eq_right (by omega)]; exact high⟩

theorem round?_none_iff (negative : Bool) (positive : num ≠ 0) (own : roundingExponent num den = e)
    (found : nearest (num * twoTo (-e).toNat) (den * twoTo e.toNat) = k) :
    round? negative num den = none ↔ (greatestExponent < e ∧ k ≠ 0) ∨ (e = greatestExponent ∧ k = limit) := by
  have nonzero : limit ≠ 0 := by decide
  have exponent : (round negative num den).exponent = if k = 0 then leastExponent else if k = limit then e + 1 else e := by
    rw [round,if_neg positive]
    dsimp only
    rw [own,found]
    split
    · rfl
    · split <;> rfl
  have outside : round? negative num den = none ↔ greatestExponent < (round negative num den).exponent := by
    simp [round?,inRange]
  rw [outside,exponent,greatestExponent,leastExponent]
  split
  · omega
  · split <;> omega

-- A tie at the greatest number goes up, since that number is odd.
theorem nearest_limit (below : num < limit * den) :
    nearest num den = limit ↔ (twoTo 54 - 1) * den ≤ 2 * num := by
  have positive : 0 < den := Nat.pos_of_ne_zero (by rintro rfl; simp at below)
  have split_ : den * (num / den) + num % den = num := Nat.div_add_mod num den
  have rest : num % den < den := Nat.mod_lt num positive
  have quotient : num / den < limit := (Nat.div_lt_iff_lt_mul positive).mpr below
  have bound : (twoTo 54 - 1) * den + den = 2 * (den * limit) := by
    rw [← Nat.succ_mul,Nat.mul_comm den,← Nat.mul_assoc]
    rfl
  have whole : den * (limit - 1) + den = den * limit := rfl
  have odd : (limit - 1) % 2 = 1 := by decide
  rw [nearest_eq]
  constructor
  · intro carried
    split at carried
    · rename_i up
      have last : num / den = limit - 1 := by omega
      rw [last] at split_
      omega
    · omega
  · intro high
    have last : num / den = limit - 1 := by
      have lower : limit - 1 ≤ num / den := by
        rw [Nat.le_div_iff_mul_le positive,Nat.mul_comm]
        omega
      omega
    rw [last] at split_ ⊢
    rw [if_pos (by omega)]
    rfl

theorem nearest_pos (scaled : 0 < den) (high : den ≤ num) : nearest num den ≠ 0 := by
  have quotient : 1 ≤ num / den := (Nat.le_div_iff_mul_le scaled).mpr (by omega)
  have bounds := (nearest_bounds num den).1
  omega

theorem ceiling_eq (den : Nat) : 2 * (ceiling * den) = (twoTo 54 - 1) * (den * twoTo 971) := by
  have last : twoTo 971 = twoTo 970 * 2 := twoTo_succ 970
  rw [ceiling,last]
  ring

theorem ceiling_bounds (den : Nat) : twoTo 53 * (den * twoTo 970) ≤ ceiling * den ∧ ceiling * den ≤ twoTo 52 * (den * twoTo 972) := by
  have more : twoTo 972 = twoTo 970 * 4 := by rw [twoTo_succ 971,twoTo_succ 970,Nat.mul_assoc]
  have same : ceiling * den = (twoTo 54 - 1) * (den * twoTo 970) := by
    rw [ceiling]
    ring
  have greater : twoTo 52 * (den * twoTo 972) = twoTo 54 * (den * twoTo 970) := by
    rw [more,show twoTo 54 = twoTo 52 * 4 from rfl]
    ring
  rw [same,greater]
  exact ⟨Nat.mul_le_mul_right _ (by decide),Nat.mul_le_mul_right _ (by decide)⟩

theorem round?_none (negative : Bool) (positive : num ≠ 0) (divisor : den ≠ 0) :
    round? negative num den = none ↔ ceiling * den ≤ num := by
  obtain ⟨upper,lower⟩ := roundingExponent_bounds positive divisor rfl
  obtain ⟨least,most⟩ := ceiling_bounds den
  have whole : ∀ {e : Int},0 ≤ e → num * twoTo (-e).toNat = num := by
    intro e high
    rw [show (-e).toNat = 0 by omega]
    exact Nat.mul_one num
  rw [round?_none_iff negative positive rfl rfl]
  generalize roundingExponent num den = e at upper lower
  rcases Int.lt_trichotomy e 971 with less | rfl | greater
  · have inside := below_mono (f := 970) (Int.lt_add_one_iff.mp less) upper
    rw [whole (by decide)] at inside
    have under : num < ceiling * den := Nat.lt_of_lt_of_le inside least
    rw [greatestExponent]
    omega
  · have raised : (971 : Int).toNat = 971 := rfl
    rw [whole (by decide),raised] at upper ⊢
    have carried := nearest_limit upper
    have doubled := ceiling_eq den
    rw [greatestExponent,carried]
    omega
  · have high := lower (by rw [leastExponent]; omega)
    rw [whole (by omega)] at high ⊢
    have scaled : twoTo 972 ≤ twoTo e.toNat := twoTo_mono (by omega)
    have above : ceiling * den ≤ num := by
      calc ceiling * den ≤ twoTo 52 * (den * twoTo 972) := most
        _ ≤ twoTo 52 * (den * twoTo e.toNat) := Nat.mul_le_mul_left _ (Nat.mul_le_mul_left _ scaled)
        _ ≤ num := high
    have nonzero : nearest num (den * twoTo e.toNat) ≠ 0 :=
      nearest_pos (Nat.mul_pos (Nat.pos_of_ne_zero divisor) (twoTo_pos _))
        (Nat.le_trans (Nat.le_mul_of_pos_left _ (twoTo_pos 52)) high)
    exact ⟨fun _ => above,fun _ => .inl ⟨greater,nonzero⟩⟩

end Binary64

namespace Decimal

def Beyond (d : Decimal) : Prop := Binary64.ceiling * tenTo (-d.exponent).toNat ≤ d.digits * tenTo d.exponent.toNat

variable {d : Decimal} {n k : Nat}

instance (d : Decimal) : Decidable d.Beyond := inferInstanceAs (Decidable (_ ≤ _))

theorem length_le_iff (positive : 0 < k) : length n ≤ k ↔ n < tenTo k := Nat.length_toDigits_le_iff (by decide) positive

theorem length_bounds (n : Nat) : n < tenTo (length n) ∧ (n ≠ 0 → tenTo (length n - 1) ≤ n) := by
  have positive : 0 < length n := Nat.length_toDigits_pos
  refine ⟨(length_le_iff positive).mp (Nat.le_refl _),fun nonzero => ?_⟩
  by_cases single : length n = 1
  · rw [single]
    exact Nat.pos_of_ne_zero nonzero
  · have shorter := (length_le_iff (n := n) (k := length n - 1) (by omega)).not
    omega

theorem ceiling_pos : 0 < Binary64.ceiling := Nat.mul_pos (by decide) (twoTo_pos _)

theorem beyond_far (nonzero : d.digits ≠ 0) (far : 400 < d.exponent + length d.digits) : d.Beyond := by
  have huge : Binary64.ceiling ≤ tenTo 400 := by decide +kernel
  have lead := (length_bounds d.digits).2 nonzero
  have powers : tenTo (400 + (-d.exponent).toNat) ≤ tenTo (length d.digits - 1 + d.exponent.toNat) := tenTo_mono (by omega)
  rw [tenTo_add,tenTo_add] at powers
  calc Binary64.ceiling * tenTo (-d.exponent).toNat ≤ tenTo 400 * tenTo (-d.exponent).toNat := Nat.mul_le_mul_right _ huge
    _ ≤ tenTo (length d.digits - 1) * tenTo d.exponent.toNat := powers
    _ ≤ d.digits * tenTo d.exponent.toNat := Nat.mul_le_mul_right _ lead

theorem not_beyond_near (near : d.exponent + length d.digits < -400) : ¬ d.Beyond := by
  have below := (length_bounds d.digits).1
  have powers : tenTo (length d.digits) ≤ tenTo (-d.exponent).toNat := tenTo_mono (by omega)
  have whole : tenTo d.exponent.toNat = 1 := by rw [show d.exponent.toNat = 0 by omega]; rfl
  have scaled : tenTo (-d.exponent).toNat ≤ Binary64.ceiling * tenTo (-d.exponent).toNat := Nat.le_mul_of_pos_left _ ceiling_pos
  rw [Beyond,whole]
  omega

theorem nearest?_none (d : Decimal) : d.nearest? = none ↔ d.Beyond := by
  have scale := tenTo_pos (-d.exponent).toNat
  unfold nearest?
  split
  · rename_i zero_
    have empty : 0 < Binary64.ceiling * tenTo (-d.exponent).toNat := Nat.mul_pos ceiling_pos scale
    simp only [reduceCtorEq,Beyond,zero_,Nat.zero_mul,false_iff]
    omega
  rename_i nonzero
  dsimp only
  split
  · rename_i far
    exact ⟨fun _ => beyond_far nonzero far,fun _ => rfl⟩
  · split
    · rename_i near
      exact ⟨nofun,fun beyond => absurd beyond (not_beyond_near near)⟩
    · exact Binary64.round?_none _ (Nat.mul_ne_zero nonzero (Nat.ne_of_gt (tenTo_pos _))) (Nat.ne_of_gt scale)

end Decimal
end SharedTree
