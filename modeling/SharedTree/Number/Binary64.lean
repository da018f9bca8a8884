import SharedTree.Number.Power

namespace SharedTree

-- Finite binary numbers with 53 significant bits, held exactly. Nothing here is machine arithmetic,
-- so a rounded result is a statement about integers.
structure Binary64 where
  negative : Bool
  significand : Nat
  exponent : Int
  deriving DecidableEq, Repr, Inhabited

namespace Binary64

def leastExponent : Int := -1074
def greatestExponent : Int := 971
def halfLimit : Nat := twoTo 52
def limit : Nat := twoTo 53

def zero (negative : Bool) : Binary64 := ⟨negative,0,leastExponent⟩
def one : Binary64 := ⟨false,halfLimit,-52⟩

def numerator (x : Binary64) : Nat := x.significand * twoTo x.exponent.toNat
def denominator (x : Binary64) : Nat := twoTo (-x.exponent).toNat

-- Every number here is a whole multiple of the least positive one.
def units (x : Binary64) : Int :=
  let magnitude : Int := (x.significand * twoTo (x.exponent - leastExponent).toNat : Nat)
  if x.negative then -magnitude else magnitude

def isZero (x : Binary64) : Bool := x.significand == 0

-- Numeric equality and order; `DecidableEq` on the other hand separates the zeros.
def same (x y : Binary64) : Bool := x.units == y.units
def compare (x y : Binary64) : Ordering := Ord.compare x.units y.units

theorem same_iff (x y : Binary64) : x.same y = true ↔ x.units = y.units := by simp [same]

def negate (x : Binary64) : Binary64 := { x with negative := !x.negative }

def roundingExponent (num den : Nat) : Int :=
  let guess : Int := (num.log2 : Int) - (den.log2 : Int) - 52
  let scaled := (num * twoTo (-guess).toNat) / (den * twoTo guess.toNat)
  max leastExponent (if scaled < halfLimit then guess - 1 else guess)

def nearest (num den : Nat) : Nat :=
  let quotient := num / den
  let rest := num % den
  if den < 2 * rest then quotient + 1
  else if 2 * rest = den ∧ quotient % 2 = 1 then quotient + 1
  else quotient

def round (negative : Bool) (num den : Nat) : Binary64 :=
  if num = 0 then zero negative else
    let exponent := roundingExponent num den
    let significand := nearest (num * twoTo (-exponent).toNat) (den * twoTo exponent.toNat)
    if significand = 0 then zero negative
    else if significand = limit then ⟨negative,halfLimit,exponent + 1⟩
    else ⟨negative,significand,exponent⟩

-- A rounded value beyond the range stands for an infinity.
def inRange (x : Binary64) : Bool := x.exponent ≤ greatestExponent

def round? (negative : Bool) (num den : Nat) : Option Binary64 :=
  let x := round negative num den
  if x.inRange then some x else none

def ofInt (n : Int) : Binary64 := round (n < 0) n.natAbs 1
def ofNat (n : Nat) : Binary64 := round false n 1

def mul (x y : Binary64) : Binary64 :=
  round (x.negative != y.negative) (x.numerator * y.numerator) (x.denominator * y.denominator)

def div (x y : Binary64) : Binary64 :=
  round (x.negative != y.negative) (x.numerator * y.denominator) (x.denominator * y.numerator)

def complement (x : Binary64) : Binary64 := round false (x.denominator - x.numerator) x.denominator

theorem round_negative (negative : Bool) (num den : Nat) : (round negative num den).negative = negative := by
  unfold round zero
  split
  · rfl
  · dsimp only
    split
    · rfl
    · split <;> rfl

theorem round_zero (negative : Bool) (den : Nat) : round negative 0 den = zero negative := by simp [round]

def bits (x : Binary64) : Nat :=
  let sign := if x.negative then twoTo 63 else 0
  if x.significand < halfLimit then sign + x.significand
  else sign + (x.exponent - leastExponent + 1).toNat * halfLimit + (x.significand - halfLimit)

def hexDigit (n : Nat) : Char := "0123456789abcdef".toList.getD (n % 16) '0'

def hex (x : Binary64) : String :=
  let word := x.bits
  String.ofList ((List.range 16).map fun i => hexDigit (word / twoTo (4 * (15 - i))))

end Binary64
end SharedTree
