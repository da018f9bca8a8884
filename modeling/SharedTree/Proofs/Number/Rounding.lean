import SharedTree.Number.Binary64

namespace SharedTree

theorem twoTo_add (m n : Nat) : twoTo (m + n) = twoTo m * twoTo n := Nat.pow_add 2 m n

theorem twoTo_mono (bound : m ≤ n) : twoTo m ≤ twoTo n := Nat.pow_le_pow_right (by decide) bound

theorem twoTo_log2 (positive : n ≠ 0) : twoTo n.log2 ≤ n := Nat.log2_self_le positive

theorem lt_twoTo_log2 (n : Nat) : n < twoTo (n.log2 + 1) := Nat.lt_log2_self

theorem log2_lt (positive : n ≠ 0) : n.log2 < k ↔ n < twoTo k := Nat.log2_lt positive

theorem natCast_twoTo_pos (n : Nat) : (0 : Int) < twoTo n := Int.natCast_pos.mpr (twoTo_pos n)

namespace Binary64

theorem nearest_one (n : Nat) : nearest n 1 = n := by
  simp [nearest,Nat.mod_one]

theorem nearest_eq (num den : Nat) : nearest num den = num / den +
    if den < 2 * (num % den) ∨ (2 * (num % den) = den ∧ num / den % 2 = 1) then 1 else 0 := by
  unfold nearest
  dsimp only
  by_cases more : den < 2 * (num % den)
  · rw [if_pos more,if_pos (.inl more)]
  · rw [if_neg more]
    simp only [more,false_or]
    split <;> rfl

theorem nearest_bounds (num den : Nat) : num / den ≤ nearest num den ∧ nearest num den ≤ num / den + 1 := by
  rw [nearest_eq]
  split <;> omega

theorem nearest_mono (den : Nat) (bound : m ≤ n) : nearest m den ≤ nearest n den := by
  have quotients : m / den ≤ n / den := Nat.div_le_div_right bound
  rcases Nat.lt_or_eq_of_le quotients with less | same
  · exact Nat.le_trans (nearest_bounds m den).2 (Nat.le_trans less (nearest_bounds n den).1)
  · have left := Nat.div_add_mod m den
    have right := Nat.div_add_mod n den
    rw [same] at left
    -- With one quotient the greater number leaves the greater rest.
    have rests : m % den ≤ n % den := by omega
    rw [nearest_eq,nearest_eq,same]
    split
    · exact Nat.le_of_eq (by rw [if_pos (by omega)])
    · omega

theorem nearest_multiple (positive : 0 < den) (k : Nat) : nearest (k * den) den = k := by
  have quotient : k * den / den = k := Nat.mul_div_cancel k positive
  have rest : k * den % den = 0 := Nat.mul_mod_left k den
  simp only [nearest,quotient,rest]
  rw [if_neg (by omega),if_neg (by omega)]

theorem nearest_near (positive : 0 < den) (num : Nat) :
    2 * (nearest num den * den) ≤ 2 * num + den ∧ 2 * num ≤ 2 * (nearest num den * den) + den := by
  have split_ : den * (num / den) + num % den = num := Nat.div_add_mod num den
  have rest : num % den < den := Nat.mod_lt num positive
  rw [nearest_eq,Nat.add_mul,Nat.mul_comm (num / den) den]
  split
  · omega
  · rename_i low
    -- The rest is at most half of the divisor, so leaving it out is nearest.
    omega

-- How far apart the numbers with 53 significant bits are where `n` is.
def spacing (n : Nat) : Nat := twoTo (n.log2 - 52)

-- The nearest of them, the even one when two are nearest.
def rounded (n : Nat) : Nat := nearest n (spacing n) * spacing n

def roundedInt (n : Int) : Int := n.sign * rounded n.natAbs

theorem spacing_pos (n : Nat) : 0 < spacing n := twoTo_pos _

theorem rounded_bounds (positive : n ≠ 0) : twoTo n.log2 ≤ rounded n ∧ rounded n ≤ twoTo (n.log2 + 1) := by
  rcases Nat.le_total n.log2 52 with low | high
  · have one : spacing n = 1 := by
      rw [spacing,Nat.sub_eq_zero_of_le low]
      rfl
    rw [rounded,one,nearest_one,Nat.mul_one]
    exact ⟨twoTo_log2 positive,Nat.le_of_lt (lt_twoTo_log2 n)⟩
  · obtain ⟨below,above⟩ := nearest_bounds n (spacing n)
    have lower : twoTo n.log2 = twoTo 52 * spacing n := by rw [spacing,← twoTo_add,Nat.add_sub_cancel' high]
    have upper : twoTo (n.log2 + 1) = twoTo 53 * spacing n := by
      rw [twoTo_succ,lower,Nat.mul_right_comm]
      rfl
    have first : twoTo 52 ≤ n / spacing n := by
      rw [Nat.le_div_iff_mul_le (spacing_pos n),← lower]
      exact twoTo_log2 positive
    have last : n / spacing n < twoTo 53 := by
      rw [Nat.div_lt_iff_lt_mul (spacing_pos n),← upper]
      exact lt_twoTo_log2 n
    rw [lower,upper]
    exact ⟨Nat.mul_le_mul_right _ (Nat.le_trans first below),Nat.mul_le_mul_right _ (Nat.le_trans above last)⟩

theorem rounded_zero : rounded 0 = 0 := rfl

theorem rounded_mono (bound : m ≤ n) : rounded m ≤ rounded n := by
  by_cases zero : m = 0
  · rw [zero,rounded_zero]
    exact Nat.zero_le _
  have positive : n ≠ 0 := by omega
  have logs : m.log2 ≤ n.log2 := by
    rw [← Nat.lt_succ_iff,log2_lt zero]
    exact Nat.lt_of_le_of_lt bound (lt_twoTo_log2 n)
  rcases Nat.lt_or_eq_of_le logs with less | same
  · exact Nat.le_trans (rounded_bounds zero).2 (Nat.le_trans (twoTo_mono less) (rounded_bounds positive).1)
  · have spaced : spacing m = spacing n := by rw [spacing,spacing,same]
    rw [rounded,rounded,spaced]
    exact Nat.mul_le_mul_right _ (nearest_mono _ bound)

theorem rounded_multiple (multiple : spacing n ∣ n) : rounded n = n := by
  obtain ⟨k,same⟩ := multiple
  have product : n = k * spacing n := same.trans (Nat.mul_comm _ _)
  have quotient : nearest n (spacing n) = k :=
    (congrArg (nearest · (spacing n)) product).trans (nearest_multiple (spacing_pos n) k)
  rw [rounded,quotient]
  exact product.symm

theorem rounded_small (small : n ≤ twoTo 53) : rounded n = n := by
  rcases Nat.lt_or_eq_of_le small with less | rfl
  · by_cases zero : n = 0
    · rw [zero,rounded_zero]
    · have low : n.log2 < 53 := (log2_lt zero).mpr less
      have one : spacing n = 1 := by
        rw [spacing,Nat.sub_eq_zero_of_le (Nat.le_of_lt_succ low)]
        rfl
      exact rounded_multiple (by rw [one]; exact Nat.one_dvd n)
  · decide

theorem rounded_lt (small : m < twoTo 53) (less : m < n) : rounded m < rounded n := by
  rw [rounded_small (Nat.le_of_lt small)]
  have next : rounded (m + 1) = m + 1 := rounded_small small
  exact Nat.lt_of_lt_of_le (Nat.lt_of_lt_of_eq (Nat.lt_succ_self m) next.symm) (rounded_mono less)

theorem rounded_pos (positive : n ≠ 0) : 0 < rounded n :=
  Nat.lt_of_lt_of_le (twoTo_pos _) (rounded_bounds positive).1

theorem rounded_near (n : Nat) : 2 * rounded n ≤ 2 * n + spacing n ∧ 2 * n ≤ 2 * rounded n + spacing n :=
  nearest_near (spacing_pos n) n

theorem roundedInt_natCast (n : Nat) : roundedInt n = rounded n := by
  rw [roundedInt,Int.natAbs_natCast]
  by_cases zero : n = 0
  · rw [zero]
    rfl
  · rw [Int.sign_natCast_of_ne_zero zero,Int.one_mul]

theorem roundedInt_neg (n : Int) : roundedInt (-n) = -roundedInt n := by
  rw [roundedInt,roundedInt,Int.sign_neg,Int.natAbs_neg,Int.neg_mul]

theorem order_cases {a b : Int} (bound : a ≤ b) : (∃ m n : Nat,a = m ∧ b = n ∧ m ≤ n) ∨
    (∃ m n : Nat,a = -m ∧ b = -n ∧ n ≤ m) ∨ ∃ m n : Nat,a = -m ∧ b = n ∧ m ≠ 0 := by
  rcases Int.lt_or_le a 0 with negative | positive
  · rcases Int.lt_or_le b 0 with low | high
    · exact .inr (.inl ⟨a.natAbs,b.natAbs,by omega,by omega,by omega⟩)
    · exact .inr (.inr ⟨a.natAbs,b.natAbs,by omega,by omega,by omega⟩)
  · exact .inl ⟨a.natAbs,b.natAbs,by omega,by omega,by omega⟩

theorem roundedInt_mono {a b : Int} (bound : a ≤ b) : roundedInt a ≤ roundedInt b := by
  rcases order_cases bound with ⟨m,n,rfl,rfl,less⟩ | ⟨m,n,rfl,rfl,less⟩ | ⟨m,n,rfl,rfl,_⟩
  · have naturals := rounded_mono less
    rw [roundedInt_natCast,roundedInt_natCast]
    omega
  · have naturals := rounded_mono less
    rw [roundedInt_neg,roundedInt_neg,roundedInt_natCast,roundedInt_natCast]
    omega
  · rw [roundedInt_neg,roundedInt_natCast,roundedInt_natCast]
    omega

theorem roundedInt_near (n : Int) : 2 * (roundedInt n - n).natAbs ≤ spacing n.natAbs := by
  obtain ⟨m,rfl | rfl⟩ := n.eq_nat_or_neg
  · have near := rounded_near m
    rw [roundedInt_natCast,Int.natAbs_natCast]
    omega
  · have near := rounded_near m
    rw [roundedInt_neg,roundedInt_natCast,Int.natAbs_neg,Int.natAbs_natCast]
    omega

theorem roundedInt_lt {a b : Int} (small : a.natAbs < twoTo 53 ∨ b.natAbs < twoTo 53) (less : a < b) :
    roundedInt a < roundedInt b := by
  rcases order_cases (Int.le_of_lt less) with ⟨m,n,rfl,rfl,_⟩ | ⟨m,n,rfl,rfl,_⟩ | ⟨m,n,rfl,rfl,positive⟩
  · have naturals : rounded m < rounded n := rounded_lt (by omega) (by omega)
    rw [roundedInt_natCast,roundedInt_natCast]
    omega
  · have naturals : rounded n < rounded m := rounded_lt (by omega) (by omega)
    rw [roundedInt_neg,roundedInt_neg,roundedInt_natCast,roundedInt_natCast]
    omega
  · have some_ := rounded_pos positive
    rw [roundedInt_neg,roundedInt_natCast,roundedInt_natCast]
    omega

theorem roundingExponent_integer (positive : n ≠ 0) : roundingExponent n 1 = (n.log2 : Int) - 52 := by
  have own := twoTo_log2 positive
  have scaled : halfLimit ≤ n * twoTo (-((n.log2 : Int) - 52)).toNat / twoTo ((n.log2 : Int) - 52).toNat := by
    rw [Nat.le_div_iff_mul_le (twoTo_pos _)]
    have split_ : halfLimit * twoTo ((n.log2 : Int) - 52).toNat = twoTo n.log2 * twoTo (-((n.log2 : Int) - 52)).toNat := by
      rw [halfLimit,← twoTo_add,← twoTo_add]
      congr 1
      omega
    rw [split_]
    exact Nat.mul_le_mul_right _ own
  have guess : (n.log2 : Int) - (Nat.log2 1 : Int) - 52 = (n.log2 : Int) - 52 := by
    rw [show Nat.log2 1 = 0 by decide]
    omega
  rw [roundingExponent,guess]
  simp only [Nat.one_mul]
  rw [if_neg (Nat.not_lt.mpr scaled),leastExponent]
  omega

theorem leastExponent_le (num den : Nat) : leastExponent ≤ roundingExponent num den := Int.le_max_left _ _

theorem round_units (negative : Bool) (positive : num ≠ 0) : (round negative num den).units = (if negative then -1 else 1) *
    ((nearest (num * twoTo (-roundingExponent num den).toNat) (den * twoTo (roundingExponent num den).toNat) *
      twoTo (roundingExponent num den - leastExponent).toNat : Nat) : Int) := by
  have least := leastExponent_le num den
  rw [round,if_neg positive]
  generalize roundingExponent num den = e at least
  dsimp only
  generalize nearest (num * twoTo (-e).toNat) (den * twoTo e.toNat) = q
  by_cases none_ : q = 0
  · rw [if_pos none_,none_]
    cases negative <;> simp [units,zero]
  rw [if_neg none_]
  by_cases carried : q = limit
  · have raised : (e + 1 - leastExponent).toNat = (e - leastExponent).toNat + 1 := by omega
    have same : halfLimit * twoTo (e + 1 - leastExponent).toNat = limit * twoTo (e - leastExponent).toNat := by
      rw [raised,twoTo_succ,limit,twoTo_succ 52,halfLimit,Nat.mul_assoc,Nat.mul_comm 2]
    rw [if_pos carried,carried]
    cases negative <;> simp [units,same]
  · rw [if_neg carried]
    cases negative <;> simp [units]

theorem nearest_integer (positive : n ≠ 0) :
    nearest (n * twoTo (-roundingExponent n 1).toNat) (1 * twoTo (roundingExponent n 1).toNat) *
      twoTo (roundingExponent n 1 - leastExponent).toNat = rounded n * twoTo 1074 := by
  rw [roundingExponent_integer positive,Nat.one_mul]
  rcases Nat.le_total n.log2 52 with low | high
  · have small : n ≤ twoTo 53 := Nat.le_trans (Nat.le_of_lt (lt_twoTo_log2 n)) (twoTo_mono (by omega))
    have whole : ((n.log2 : Int) - 52).toNat = 0 := by omega
    have shift : (-((n.log2 : Int) - 52)).toNat = 52 - n.log2 := by omega
    have scale : ((n.log2 : Int) - 52 - leastExponent).toNat = n.log2 + 1022 := by
      rw [leastExponent]
      omega
    have sum : 52 - n.log2 + (n.log2 + 1022) = 1074 := by omega
    rw [whole,shift,scale,show twoTo 0 = 1 from rfl,nearest_one,Nat.mul_assoc,← twoTo_add,sum,rounded_small small]
  · have none_ : (-((n.log2 : Int) - 52)).toNat = 0 := by omega
    have shift : ((n.log2 : Int) - 52).toNat = n.log2 - 52 := by omega
    have scale : ((n.log2 : Int) - 52 - leastExponent).toNat = n.log2 - 52 + 1074 := by
      rw [leastExponent]
      omega
    rw [none_,shift,scale,show twoTo 0 = 1 from rfl,Nat.mul_one,twoTo_add,← Nat.mul_assoc,rounded,spacing]

theorem ofInt_units (n : Int) : (ofInt n).units = roundedInt n * twoTo 1074 := by
  by_cases zero_ : n = 0
  · have none_ : roundedInt 0 = 0 := rfl
    rw [zero_,none_,Int.zero_mul]
    rfl
  have positive : n.natAbs ≠ 0 := by omega
  rw [ofInt,round_units _ positive,nearest_integer positive,roundedInt,Int.mul_assoc,Int.natCast_mul]
  rcases Int.lt_or_gt_of_ne zero_ with below | above
  · rw [Int.sign_eq_neg_one_of_neg below,decide_eq_true below]
    rfl
  · rw [Int.sign_eq_one_of_pos above,decide_eq_false (by omega)]
    rfl

theorem ofInt_same (a b : Int) : (ofInt a).same (ofInt b) = true ↔ roundedInt a = roundedInt b := by
  have scale := natCast_twoTo_pos 1074
  rw [same_iff,ofInt_units,ofInt_units]
  exact ⟨Int.eq_of_mul_eq_mul_right (Int.ne_of_gt scale),fun equal => by rw [equal]⟩

theorem ofInt_lt (a b : Int) : (ofInt a).units < (ofInt b).units ↔ roundedInt a < roundedInt b := by
  have scale := natCast_twoTo_pos 1074
  rw [ofInt_units,ofInt_units]
  exact ⟨fun less => Int.lt_of_mul_lt_mul_right less (Int.le_of_lt scale),fun less => Int.mul_lt_mul_of_pos_right less scale⟩

end Binary64
end SharedTree
