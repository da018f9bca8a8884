import SharedTree.Number.Binary64

namespace SharedTree

-- A numeral is read in two ways: `nearest?` is correctly rounded, `scaled?` rounds the digits first
-- and then scales by a rounded power of ten, so its last bit may differ.
structure Decimal where
  negative : Bool
  digits : Nat
  exponent : Int
  deriving DecidableEq, Repr

namespace Decimal

def isDigit (c : Char) : Bool := '0' ≤ c && c ≤ '9'
def digitValue (c : Char) : Nat := c.toNat - '0'.toNat

def value (start : Nat) (digits : List Char) : Nat :=
  digits.foldl (fun n c => 10 * n + digitValue c) start

def length (n : Nat) : Nat := (Nat.toDigits 10 n).length

-- Correctly rounded. Exponents far outside the range are decided without
-- building the power of ten. `none` is a value beyond the greatest number.
def nearest? (d : Decimal) : Option Binary64 :=
  if d.digits = 0 then some (Binary64.zero d.negative)
  else
    let top : Int := d.exponent + length d.digits
    if 400 < top then none
    else if top < -400 then some (Binary64.zero d.negative)
    else Binary64.round? d.negative (d.digits * tenTo d.exponent.toNat) (tenTo (-d.exponent).toNat)

def power (n : Nat) : Binary64 := .ofNat (tenTo n)

def shrink (x : Binary64) (exponent : Nat) : Binary64 :=
  if exponent ≤ 308 then x.div (power exponent)
  else if x.isZero then x
  else shrink (x.div (power 308)) (exponent - 308)
termination_by exponent

def scaled? (d : Decimal) : Option Binary64 :=
  let x := Binary64.ofNat d.digits
  let result? : Option Binary64 :=
    if d.exponent < 0 then some (shrink x (-d.exponent).toNat)
    else if d.exponent ≤ 308 then
      let product := x.mul (power d.exponent.toNat)
      if product.inRange then some product else none
    else if x.isZero then some x
    else none
  result?.map fun y => { y with negative := d.negative }

end Decimal
end SharedTree
